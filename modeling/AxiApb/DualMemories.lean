import AxiApb.ByteStore
import AxiApb.WaitStates

/-!
# The memories behind the APB ports

The UVM benches put one of five slave models behind the bridge.  They differ in when `PREADY` is low and in which address
bits choose the word, but each is a memory (`IsMemory`): a write that completes replaces its word, nothing else does, and
`PRDATA` is always the word that the address chooses.  So whatever a master does, also against the protocol, a read gives
what the last completed write to its word has left there (`last_written`), and no model keeps `PREADY` low for longer than
its wait cycles say (`low_bounded`).
-/

namespace AxiApb.DualMem

open Clocked DualMemWs

/-- One port of a slave model; `ε` is what the test bench drives. -/
structure SlavePort (P : DualMemWs.Params) (ε σ : Type) where
  edge : σ → ε → PortIn P → σ
  out : σ → ε → PortIn P → PortOut P
  reset : σ → σ

section
variable {P : DualMemWs.Params}

/-! ### The five models -/

/-- The body of `apb_dual_mem_burst` and `apb_dual_mem_param`, which are the same. -/
def alwaysReady (P : DualMemWs.Params) : SlavePort P Unit (BitVec 8 → BitVec P.dataWidth) where
  edge mem _ i :=
    if i.psel && i.penable then
      if i.pwrite then Function.update mem i.index i.pwdata else mem
    else mem
  out mem _ i := ⟨mem i.index, true, false⟩
  reset mem := mem

def apbDualMemBurst (P : DualMemWs.Params) := alwaysReady P

def apbDualMemParam (P : DualMemWs.Params) := alwaysReady P

/-- The registers of a port of `apb_dual_mem_simple`. -/
structure SimpleRegs (P : DualMemWs.Params) where
  pready : Bool
  rdWait : Bool
  mem : BitVec 8 → BitVec P.dataWidth

def apbDualMemSimple (P : DualMemWs.Params) : SlavePort P Unit (SimpleRegs P) where
  edge r _ i :=
    let t := { r with pready := true }
    if r.rdWait then { t with rdWait := false }
    else if i.psel && i.penable then
      if i.pwrite then { t with mem := Function.update r.mem i.index i.pwdata }
      else { t with pready := false, rdWait := true }
    else t
  out r _ i := ⟨r.mem i.index, r.pready, false⟩
  reset r := { r with pready := true, rdWait := false }

def apbDualMemWs (P : DualMemWs.Params) : SlavePort P Unit (PortRegs P) where
  edge r _ i := portEdge r i
  out r _ i := ⟨r.mem i.index, r.pready, false⟩
  reset r := { r with pready := true, rdCount := 0 }

/-- `PREADYx` and `PSLVERRx` of `apb_burst_ext_side_if`. -/
structure Side where
  pready : Bool
  pslverr : Bool

/-- `PADDRx[12:3]` -/
def extIndex (a : BitVec P.addrWidth) : BitVec 10 := a.extractLsb' 3 10

/-- A write with `PSLVERR` is stored as well. -/
def apbExtMemDual (P : DualMemWs.Params) : SlavePort P Side (BitVec 10 → BitVec P.dataWidth) where
  edge mem e i :=
    if i.psel && i.penable && e.pready && i.pwrite then Function.update mem (extIndex i.paddr) i.pwdata else mem
  out mem e i := ⟨mem (extIndex i.paddr), e.pready, e.pslverr⟩
  reset mem := mem

/-! ### Memories -/

section
variable {ε σ κ : Type} [DecidableEq κ]

/-- A write completes. -/
def Writes (i : PortIn P) (o : PortOut P) : Bool := i.psel && i.penable && o.pready && i.pwrite

/-- The port is a memory of the words `word`, chosen by `index` of the address, in the states that satisfy `Inv`. -/
structure IsMemory (M : SlavePort P ε σ) (index : BitVec P.addrWidth → κ) (word : σ → κ → BitVec P.dataWidth)
    (Inv : σ → Prop) : Prop where
  inv_reset : ∀ s, Inv (M.reset s)
  word_reset : ∀ s, word (M.reset s) = word s
  inv_edge : ∀ s e i, Inv s → Inv (M.edge s e i)
  read : ∀ s e i, (M.out s e i).prdata = word s (index i.paddr)
  store : ∀ s e i, Inv s → word (M.edge s e i) =
    if Writes i (M.out s e i) then Function.update (word s) (index i.paddr) i.pwdata else word s

/-- The port as a machine. -/
def SlavePort.machine (M : SlavePort P ε σ) : Machine (ε × PortIn P) (PortOut P) σ :=
  ⟨fun s i => M.edge s i.1 i.2, fun s i => M.out s i.1 i.2⟩

/-- The completed writes of a trace. -/
def completed (index : BitVec P.addrWidth → κ) (tr : List ((ε × PortIn P) × PortOut P)) :
    List (κ × BitVec P.dataWidth) :=
  (tr.filter fun c => Writes c.1.2 c.2).map fun c => (index c.1.2.paddr, c.1.2.pwdata)

variable {M : SlavePort P ε σ} {index : BitVec P.addrWidth → κ} {word : σ → κ → BitVec P.dataWidth} {Inv : σ → Prop}

omit [DecidableEq κ] in
theorem completed_concat (tr : List ((ε × PortIn P) × PortOut P)) (c : (ε × PortIn P) × PortOut P) :
    completed index (tr ++ [c]) =
      completed index tr ++ if Writes c.1.2 c.2 then [(index c.1.2.paddr, c.1.2.pwdata)] else [] := by
  rw [completed, List.filter_append, List.map_append, List.filter_singleton]
  cases Writes c.1.2 c.2 <;> rfl

/-- The words after a run are those of the completed writes, each in the place of the one before. -/
theorem IsMemory.run (h : IsMemory M index word Inv) {s : σ} (hs : Inv s) (is : List (ε × PortIn P)) :
    Inv (M.machine.run s is) ∧ word (M.machine.run s is) =
      (completed index (M.machine.trace s is)).foldl (ByteStore.write fun _ d => d) (word s) := by
  induction is using List.reverseRecOn with
  | nil => exact ⟨hs, rfl⟩
  | append_singleton is i ih =>
    rw [Machine.run_concat, Machine.trace_concat, completed_concat, List.foldl_append, ← ih.2]
    refine ⟨h.inv_edge _ _ _ ih.1, (h.store _ _ _ ih.1).trans ?_⟩
    show (if Writes i.2 (M.out _ i.1 i.2) then _ else _) = _
    split
    · rename_i hw
      rw [if_pos (show Writes i.2 (M.machine.out _ i) = true from hw)]
      rfl
    · rename_i hw
      rw [if_neg (show ¬ Writes i.2 (M.machine.out _ i) = true from hw)]
      rfl

private theorem foldl_last {β : Type*} (b : β) (l : List β) : l.foldl (fun _ d => d) b = l.getLast?.getD b := by
  induction l using List.reverseRecOn with
  | nil => rfl
  | append_singleton l d ih => simp

/-- In every cycle after a reset `PRDATA` is what the last completed write to the word has left. -/
def LastWritten (M : SlavePort P ε σ) (index : BitVec P.addrWidth → κ) (word : σ → κ → BitVec P.dataWidth) : Prop :=
  ∀ (s : σ) (is : List (ε × PortIn P)) (i : ε × PortIn P),
    (M.machine.out (M.machine.run (M.reset s) is) i).prdata =
      (ByteStore.writesTo (index i.2.paddr) (completed index (M.machine.trace (M.reset s) is))).getLast?.getD
        (word s (index i.2.paddr))

theorem IsMemory.lastWritten (h : IsMemory M index word Inv) : LastWritten M index word := by
  intro s is i
  have hread := h.read (M.machine.run (M.reset s) is) i.1 i.2
  have hrun := (h.run (h.inv_reset s) is).2
  rw [hrun, h.word_reset, ByteStore.foldl_write, foldl_last] at hread
  exact hread

/-! ### The time that `PREADY` is low -/

/-- At the end of every run from reset in which `PREADY` was low in the last `n` cycles, `n` is at most `bound`. -/
def LowBounded (M : SlavePort P ε σ) (bound : Nat) : Prop :=
  ∀ (s : σ) (is js : List (ε × PortIn P)),
    (∀ c ∈ M.machine.trace (M.machine.run (M.reset s) is) js, c.2.pready = false) → js.length ≤ bound

/-- A count that falls in every cycle in which `PREADY` is low. -/
theorem lowBounded_of_count (count : σ → Nat) {bound : Nat} (hreset : ∀ s, Inv (M.reset s))
    (hinv : ∀ s e i, Inv s → Inv (M.edge s e i)) (hle : ∀ s, Inv s → count s ≤ bound)
    (hlow : ∀ s e i, Inv s → (M.out s e i).pready = false → count (M.edge s e i) < count s) : LowBounded M bound := by
  have hcount : ∀ js t, Inv t → (∀ c ∈ M.machine.trace t js, c.2.pready = false) → js.length ≤ count t := by
    intro js
    induction js with
    | nil => simp
    | cons j js ih =>
      intro t ht hall
      have hdrop := hlow t j.1 j.2 ht (hall _ (List.mem_cons_self ..))
      have hrest := ih (M.edge t j.1 j.2) (hinv _ _ _ ht) (fun c hc => hall c (List.mem_cons_of_mem _ hc))
      rw [List.length_cons]
      omega
  intro s is js hjs
  have hrun : Inv (M.machine.run (M.reset s) is) :=
    Machine.run_invariant (fun t i (_ : True) ht => hinv t i.1 i.2 ht) (hreset s) (fun _ _ => trivial)
  exact (hcount _ _ hrun hjs).trans (hle _ hrun)

end

/-! ### The models are memories -/

theorem isMemory_alwaysReady (P : DualMemWs.Params) :
    IsMemory (alwaysReady P) (fun a => a.extractLsb' 2 8) id (fun _ => True) where
  inv_reset _ := trivial
  word_reset _ := rfl
  inv_edge _ _ _ _ := trivial
  read _ _ _ := rfl
  store s e i _ := by
    show (if i.psel && i.penable then (if i.pwrite then Function.update s _ i.pwdata else s) else s) =
      if i.psel && i.penable && true && i.pwrite then Function.update s _ i.pwdata else s
    cases i.psel && i.penable <;> cases i.pwrite <;> rfl

/-- `PREADY` is low just while a read is held up. -/
def SimpleReady (r : SimpleRegs P) : Prop := r.pready = !r.rdWait

theorem isMemory_simple (P : DualMemWs.Params) :
    IsMemory (apbDualMemSimple P) (fun a => a.extractLsb' 2 8) (·.mem) SimpleReady where
  inv_reset _ := rfl
  word_reset _ := rfl
  inv_edge r _ i _ := by
    show SimpleReady (if r.rdWait then _ else _)
    cases r.rdWait <;> cases i.psel && i.penable <;> cases i.pwrite <;> rfl
  read _ _ _ := rfl
  store r _ i h := by
    have h : r.pready = !r.rdWait := h
    show SimpleRegs.mem (if r.rdWait then _ else _) = if i.psel && i.penable && r.pready && i.pwrite then _ else _
    rw [h]
    cases r.rdWait <;> cases i.psel && i.penable <;> cases i.pwrite <;> rfl

/-- The wait counter of `apb_dual_mem_ws` and its `PREADY`. -/
def WsReady (r : PortRegs P) : Prop := r.pready = decide (r.rdCount = 0) ∧ r.rdCount ≤ P.readWaitCycles

/-- While the counter runs it falls, and nothing is stored. -/
private theorem portEdge_run {r : PortRegs P} (h : 0 < r.rdCount) (i : PortIn P) :
    (portEdge r i).mem = r.mem ∧ (portEdge r i).rdCount = r.rdCount - 1 ∧
      (portEdge r i).pready = decide (r.rdCount = 1) := by
  rw [portEdge, if_pos h]
  by_cases h1 : r.rdCount = 1
  · simp [h1]
  · rw [if_neg (by simpa using h1)]
    simp [h1]

/-- At rest a write is stored, and a read starts the counter. -/
private theorem portEdge_rest {r : PortRegs P} (h : r.rdCount = 0) (i : PortIn P) :
    (portEdge r i).mem =
        (if i.psel && i.penable && i.pwrite then Function.update r.mem i.index i.pwdata else r.mem) ∧
      (portEdge r i).rdCount = (if i.psel && i.penable && !i.pwrite then P.readWaitCycles else 0) ∧
      (portEdge r i).pready = decide ((portEdge r i).rdCount = 0) := by
  rw [portEdge, if_neg (by omega)]
  cases i.psel && i.penable with
  | false => simp [h]
  | true =>
    cases i.pwrite with
    | true => simp [h]
    | false =>
      by_cases hn : 0 < P.readWaitCycles
      · simp [hn, Nat.ne_of_gt hn]
      · have h0 : P.readWaitCycles = 0 := by omega
        simp [h, h0]

theorem wsReady_edge {r : PortRegs P} (h : WsReady r) (i : PortIn P) : WsReady (portEdge r i) := by
  obtain ⟨-, hle⟩ := h
  rcases Nat.eq_zero_or_pos r.rdCount with h0 | hpos
  · obtain ⟨-, hcount, hready⟩ := portEdge_rest h0 i
    refine ⟨hready, ?_⟩
    rw [hcount]
    split <;> omega
  · obtain ⟨-, hcount, hready⟩ := portEdge_run hpos i
    rw [WsReady, hcount, hready]
    refine ⟨decide_eq_decide.2 ?_, ?_⟩ <;> omega

theorem isMemory_ws (P : DualMemWs.Params) :
    IsMemory (apbDualMemWs P) (fun a => a.extractLsb' 2 8) (·.mem) WsReady where
  inv_reset _ := ⟨rfl, Nat.zero_le _⟩
  word_reset _ := rfl
  inv_edge _ _ i h := wsReady_edge h i
  read _ _ _ := rfl
  store r _ i h := by
    have hready : r.pready = decide (r.rdCount = 0) := h.1
    show (portEdge r i).mem = if i.psel && i.penable && r.pready && i.pwrite then _ else r.mem
    rw [hready]
    rcases Nat.eq_zero_or_pos r.rdCount with h0 | hpos
    · rw [(portEdge_rest h0 i).1, h0, decide_eq_true rfl, Bool.and_true]
      rfl
    · rw [(portEdge_run hpos i).1, decide_eq_false (by omega), Bool.and_false, Bool.false_and]
      rfl

theorem isMemory_ext (P : DualMemWs.Params) : IsMemory (apbExtMemDual P) extIndex id (fun _ => True) where
  inv_reset _ := trivial
  word_reset _ := rfl
  inv_edge _ _ _ _ := trivial
  read _ _ _ := rfl
  store _ _ _ _ := rfl

/-! ### What a master can rely on -/

/-- For every model, every input and every run from reset: `PRDATA` is what the last completed write to its word has
left, before any write what the memory held at the reset. -/
theorem last_written (P : DualMemWs.Params) :
    LastWritten (apbDualMemBurst P) (fun a => a.extractLsb' 2 8) id ∧
      LastWritten (apbDualMemParam P) (fun a => a.extractLsb' 2 8) id ∧
      LastWritten (apbDualMemSimple P) (fun a => a.extractLsb' 2 8) (·.mem) ∧
      LastWritten (apbDualMemWs P) (fun a => a.extractLsb' 2 8) (·.mem) ∧
      LastWritten (apbExtMemDual P) extIndex id :=
  ⟨(isMemory_alwaysReady P).lastWritten, (isMemory_alwaysReady P).lastWritten, (isMemory_simple P).lastWritten,
    (isMemory_ws P).lastWritten, (isMemory_ext P).lastWritten⟩

private theorem lowBounded_alwaysReady (P : DualMemWs.Params) : LowBounded (alwaysReady P) 0 :=
  lowBounded_of_count (fun _ => 0) (isMemory_alwaysReady P).inv_reset (isMemory_alwaysReady P).inv_edge
    (fun _ _ => le_rfl) (fun _ _ _ _ h => by cases h)

/-- Whatever the master does, `PREADY` is never low for longer than the model says: not at all, for one cycle, for
`READ_WAIT_CYCLES` cycles. -/
theorem low_bounded (P : DualMemWs.Params) :
    LowBounded (apbDualMemBurst P) 0 ∧ LowBounded (apbDualMemParam P) 0 ∧ LowBounded (apbDualMemSimple P) 1 ∧
      LowBounded (apbDualMemWs P) P.readWaitCycles := by
  refine ⟨lowBounded_alwaysReady P, lowBounded_alwaysReady P, ?_, ?_⟩
  · refine lowBounded_of_count (fun r => if r.rdWait then 1 else 0) (isMemory_simple P).inv_reset
      (isMemory_simple P).inv_edge (fun r _ => by split <;> omega) (fun r e i h hlow => ?_)
    have hwait : r.rdWait = true := by
      have h : r.pready = !r.rdWait := h
      have hlow : r.pready = false := hlow
      rw [hlow] at h
      simpa using h.symm
    show (if SimpleRegs.rdWait (if r.rdWait then _ else _) then 1 else 0) < if r.rdWait then 1 else 0
    rw [hwait]
    simp
  · refine lowBounded_of_count (fun r => r.rdCount) (isMemory_ws P).inv_reset (isMemory_ws P).inv_edge
      (fun r h => h.2) (fun r e i h hlow => ?_)
    have hpos : 0 < r.rdCount := by
      have h : r.pready = decide (r.rdCount = 0) := h.1
      have hlow : r.pready = false := hlow
      rw [hlow] at h
      have hne : r.rdCount ≠ 0 := by simpa using h.symm
      omega
    show (portEdge r i).rdCount < r.rdCount
    rw [(portEdge_run hpos i).2.1]
    omega

end

end AxiApb.DualMem
