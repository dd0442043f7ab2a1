import AxiApb.Clocked

/-!
# The slave model with wait states

`apb_dual_mem_ws` (and the slave in `tb_axi4_to_apb4_2x_simple_ws.v`, which it mirrors) has a memory and a wait counter
for each of its two ports.  `PREADY` is high while the counter rests, so a read that comes then completes at once, and
the counter that this read starts runs while the port is idle.  A master that obeys the protocol sees what is left of
it in its next transfer: no read ever waits for `READ_WAIT_CYCLES` (`read_waits`).
-/

namespace AxiApb.DualMemWs

open Clocked

structure Params where
  addrWidth : Nat := 32
  dataWidth : Nat := 64
  readWaitCycles : Nat := 2

/-- The inputs of one port at a clock edge. -/
structure PortIn (P : Params) where
  paddr : BitVec P.addrWidth
  psel : Bool
  penable : Bool
  pwrite : Bool
  pwdata : BitVec P.dataWidth

/-- The registers of one port. -/
structure PortRegs (P : Params) where
  pready : Bool
  rdCount : Nat
  mem : BitVec 8 → BitVec P.dataWidth

structure PortOut (P : Params) where
  prdata : BitVec P.dataWidth
  pready : Bool
  pslverr : Bool

section
variable {P : Params}

/-- `PADDRx[9:2]` -/
def PortIn.index (i : PortIn P) : BitVec 8 := i.paddr.extractLsb' 2 8

/-- One port at a clock edge with `rst_n` high; without a later assignment `PREADYx` becomes high. -/
def portEdge (r : PortRegs P) (i : PortIn P) : PortRegs P :=
  let t := { r with pready := true }
  if r.rdCount > 0 then
    if r.rdCount == 1 then { t with pready := true, rdCount := 0 }
    else { t with pready := false, rdCount := r.rdCount - 1 }
  else if i.psel && i.penable then
    if i.pwrite then { t with mem := Function.update r.mem i.index i.pwdata }
    else if P.readWaitCycles > 0 then { t with pready := false, rdCount := P.readWaitCycles }
    else t
  else t

/-- The registers of ports 0 and 1. -/
abbrev State (P : Params) := Bool → PortRegs P

abbrev In (P : Params) := Bool → PortIn P

def posedge (s : State P) (i : In P) : State P := fun x => portEdge (s x) (i x)

def out (s : State P) (i : In P) : Bool → PortOut P := fun x => ⟨(s x).mem (i x).index, (s x).pready, false⟩

/-- `rst_n` low; the memories keep what they hold. -/
def reset (s : State P) : State P := fun x => { s x with pready := true, rdCount := 0 }

def IsReset (s : State P) : Prop := ∃ s₀, s = reset s₀

/-- After reset, with empty memories. -/
def State.zero (P : Params) : State P := fun _ => ⟨true, 0, fun _ => 0⟩

theorem isReset_zero (P : Params) : IsReset (State.zero P) := ⟨State.zero P, rfl⟩

/-- The inputs of a port that is idle, and of port 0 in a setup cycle and in the access phase of a read. -/
def PortIn.idle (P : Params) : PortIn P := ⟨0, false, false, false, 0⟩

def readSetup (P : Params) : In P := fun x => if x then .idle P else { PortIn.idle P with psel := true }

def readAccess (P : Params) : In P := fun x =>
  if x then .idle P else { PortIn.idle P with psel := true, penable := true }

end

def slave (P : Params) : Machine (In P) (Bool → PortOut P) (State P) := ⟨posedge, out⟩

abbrev Cycle (P : Params) := In P × (Bool → PortOut P)

section
variable {P : Params}

/-! ### What a master sees -/

/-- The access phase of port `x`, and the cycle in which a read completes. -/
def Access (x : Bool) (c : Cycle P) : Prop := (c.1 x).psel = true ∧ (c.1 x).penable = true

def ReadDone (x : Bool) (c : Cycle P) : Prop := Access x c ∧ (c.2 x).pready = true ∧ (c.1 x).pwrite = false

instance (x : Bool) (c : Cycle P) : Decidable (Access x c) := inferInstanceAs (Decidable (_ ∧ _))

instance (x : Bool) (c : Cycle P) : Decidable (ReadDone x c) := inferInstanceAs (Decidable (_ ∧ _ ∧ _))

/-- What the master does on port `x` after the cycle `c`: one setup cycle, `PSEL` and `PENABLE` until `PREADY` is
sampled high, and then both low. -/
def Follows (x : Bool) (c d : Cycle P) : Prop :=
  ((c.1 x).psel = false → (c.1 x).penable = false ∧ (d.1 x).penable = false) ∧
    ((c.1 x).psel = true → (c.1 x).penable = false → Access x d) ∧
      (Access x c → if (c.2 x).pready then (d.1 x).psel = false ∧ (d.1 x).penable = false else Access x d)

/-- The master obeys the protocol on port `x`, and is in no transfer at the start. -/
def MasterOk (x : Bool) (tr : List (Cycle P)) : Prop :=
  (∀ c ∈ tr.head?, (c.1 x).penable = false) ∧ tr.IsChain (Follows x)

instance (x : Bool) (c d : Cycle P) : Decidable (Follows x c d) :=
  inferInstanceAs (Decidable ((_ → _ ∧ _) ∧ (_ → _ → _) ∧ (_ → _)))

instance (x : Bool) (tr : List (Cycle P)) : Decidable (MasterOk x tr) := inferInstanceAs (Decidable ((∀ _ ∈ _, _) ∧ _))

/-- For each read that completes on port `x`, the number of access cycles before in which `PREADY` was low; `w` of them
are past. -/
def readWaits (x : Bool) : Nat → List (Cycle P) → List Nat
  | _, [] => []
  | w, c :: tr =>
    if ReadDone x c then w :: readWaits x 0 tr
    else if Access x c ∧ (c.2 x).pready = false then readWaits x (w + 1) tr
    else readWaits x 0 tr

theorem readWaits_eq_nil {x : Bool} {w : Nat} {tr : List (Cycle P)} :
    readWaits x w tr = [] ↔ ∀ c ∈ tr, ¬ ReadDone x c := by
  induction tr generalizing w with
  | nil => simp [readWaits]
  | cons c tr ih =>
    rw [readWaits]
    by_cases hc : ReadDone x c
    · simp [hc]
    · rw [if_neg hc]
      split <;> simp [hc, ih]

/-! ### The counter -/

section
variable {x : Bool} {s : State P} {i j : In P} {w : Nat}

/-- `PREADY` is high just while the counter rests. -/
def Ready (r : PortRegs P) : Prop := r.pready = decide (r.rdCount = 0)

/-- What is left in the counter when the inputs `i` are next and the transfer has waited for `w` cycles: at most the
depth, one less in a setup cycle, and two less in an access phase, with its waits. -/
def Left (r : PortRegs P) (i : PortIn P) (w : Nat) : Prop :=
  if i.psel && i.penable then w + r.rdCount ≤ P.readWaitCycles - 2
  else if i.psel then r.rdCount ≤ P.readWaitCycles - 1
  else r.rdCount ≤ P.readWaitCycles

private theorem rdCount_edge (r : PortRegs P) (i : PortIn P) : (portEdge r i).rdCount =
    if r.rdCount = 0 then (if i.psel && i.penable && !i.pwrite then P.readWaitCycles else 0) else r.rdCount - 1 := by
  unfold portEdge
  by_cases h0 : r.rdCount = 0
  · have hn : ¬ P.readWaitCycles > 0 → P.readWaitCycles = 0 := Nat.eq_zero_of_not_pos
    rw [if_pos h0, if_neg (by omega)]
    cases i.psel && i.penable with
    | false => exact h0
    | true =>
      rw [if_pos rfl, Bool.true_and]
      cases i.pwrite with
      | true => exact h0
      | false =>
        by_cases hpos : P.readWaitCycles > 0
        · simp [hpos]
        · simp [h0, hn hpos]
  · rw [if_neg h0, if_pos (by omega)]
    split
    · rename_i h1
      have h1 : r.rdCount = 1 := by simpa using h1
      rw [h1]
    · rfl

private theorem ready_edge (r : PortRegs P) (i : PortIn P) : Ready (portEdge r i) := by
  unfold Ready portEdge
  by_cases h0 : r.rdCount = 0
  · rw [if_neg (by omega)]
    split
    · split
      · simp [h0]
      · split
        · rename_i hpos
          simp [Nat.pos_iff_ne_zero.1 hpos]
        · simp [h0]
    · simp [h0]
  · rw [if_pos (by omega)]
    split
    · rfl
    · rename_i h1
      have h1 : r.rdCount ≠ 1 := by simpa using h1
      simp
      omega

/-- One edge: the counter runs down while the port is idle, in its setup cycle and while it waits. -/
private theorem left_step {o : Bool → PortOut P} (hready : Ready (s x)) (h : Left (s x) (i x) w)
    (hf : Follows x (i, out s i) (j, o)) :
    Left (posedge s i x) (j x) (if Access x (i, out s i) ∧ (s x).pready = false then w + 1 else 0) := by
  obtain ⟨hidle, hsetup, haccess⟩ := hf
  have hcount := rdCount_edge (s x) (i x)
  unfold Left at h ⊢
  show if _ then _ + (portEdge (s x) (i x)).rdCount ≤ _ else if _ then (portEdge (s x) (i x)).rdCount ≤ _
    else (portEdge (s x) (i x)).rdCount ≤ _
  rw [hcount]
  cases hs : (i x).psel with
  | false =>
    obtain ⟨he, hje⟩ := hidle hs
    have hno : ¬ (Access x (i, out s i) ∧ (s x).pready = false) := by simp [Access, hs]
    simp only [hs, Bool.false_and, Bool.false_eq_true, if_false] at h ⊢
    rw [if_neg hno, show (j x).penable = false from hje]
    simp only [Bool.and_false, Bool.false_eq_true, if_false]
    split <;> split <;> omega
  | true =>
    cases he : (i x).penable with
    | false =>
      obtain ⟨hjs, hje⟩ := hsetup hs he
      have hno : ¬ (Access x (i, out s i) ∧ (s x).pready = false) := by simp [Access, he]
      simp only [hs, he, Bool.and_false, Bool.false_eq_true, if_false, if_true, Bool.false_and] at h ⊢
      rw [if_neg hno, show (j x).psel = true from hjs, show (j x).penable = true from hje]
      simp only [Bool.and_self, if_true]
      split <;> omega
    | true =>
      have hacc : Access x (i, out s i) := ⟨hs, he⟩
      have hnext := haccess hacc
      simp only [hs, he, Bool.and_self, if_true, Bool.true_and] at h ⊢
      rw [show ((out s i) x).pready = (s x).pready from rfl, hready] at hnext
      rw [hready]
      by_cases h0 : (s x).rdCount = 0
      · simp only [h0, decide_true, if_true] at hnext
        rw [if_pos h0, show (j x).psel = false from hnext.1]
        simp only [Bool.false_and, Bool.false_eq_true, if_false]
        split <;> omega
      · simp only [h0, decide_false, Bool.false_eq_true, if_false] at hnext
        rw [if_neg h0, show (j x).psel = true from hnext.1, show (j x).penable = true from hnext.2]
        simp only [Bool.and_self, if_true]
        rw [if_pos ⟨hacc, by simp [h0]⟩]
        omega

/-- A read that completes has waited for two cycles less than the depth at most. -/
private theorem readWaits_le {is : List (In P)} (hready : Ready (s x)) (h : ∀ i ∈ is.head?, Left (s x) (i x) w)
    (hf : ((slave P).trace s is).IsChain (Follows x)) :
    ∀ k ∈ readWaits x w ((slave P).trace s is), k ≤ P.readWaitCycles - 2 := by
  induction is generalizing s w with
  | nil => simp [readWaits]
  | cons i is ih =>
    have hl : Left (s x) (i x) w := h i rfl
    have hnext : ∀ w', w' = (if Access x (i, out s i) ∧ (s x).pready = false then w + 1 else 0) →
        ∀ k ∈ readWaits x w' ((slave P).trace (posedge s i) is), k ≤ P.readWaitCycles - 2 := by
      intro w' hw'
      rw [Machine.trace_cons] at hf
      refine ih (ready_edge _ _) (fun j hj => ?_) hf.of_cons
      cases is with
      | nil => cases hj
      | cons j' is =>
        cases hj
        rw [hw']
        exact left_step hready hl hf.rel
    rw [Machine.trace_cons, readWaits]
    show ∀ k ∈ (if ReadDone x (i, out s i) then _ else _), _
    split
    · rename_i hdone
      intro k hk
      rcases List.mem_cons.1 hk with rfl | hk
      · -- in its access phase
        obtain ⟨⟨hs, he⟩, -⟩ := hdone
        rw [Left, hs, he] at hl
        exact Nat.le_trans (Nat.le_add_right ..) hl
      · refine hnext 0 ?_ k hk
        rw [if_neg]
        rintro ⟨-, hlow⟩
        rw [show (s x).pready = true from hdone.2.1] at hlow
        cases hlow
    · split
      · rename_i hwait
        exact hnext _ (if_pos hwait).symm
      · rename_i hno
        exact hnext _ (if_neg hno).symm

end

end

/-- Whatever the master does within the protocol, a read waits for two cycles less than the depth at most; so all reads
of a run wait for as many cycles as the depth says only if there is none. -/
theorem read_waits {P : Params} {s : State P} {is : List (In P)} (hn : 1 ≤ P.readWaitCycles) (h0 : IsReset s)
    (hm : ∀ x, MasterOk x ((slave P).trace s is)) :
    (∀ x, ∀ k ∈ readWaits x 0 ((slave P).trace s is), k ≤ P.readWaitCycles - 2) ∧
      ((∀ x, ∀ k ∈ readWaits x 0 ((slave P).trace s is), k = P.readWaitCycles) ↔
        ∀ x, ∀ c ∈ (slave P).trace s is, ¬ ReadDone x c) := by
  have hle : ∀ x, ∀ k ∈ readWaits x 0 ((slave P).trace s is), k ≤ P.readWaitCycles - 2 := by
    intro x
    obtain ⟨s₀, rfl⟩ := h0
    refine readWaits_le rfl (fun i hi => ?_) (hm x).2
    have hen : (i x).penable = false := by
      cases is with
      | nil => cases hi
      | cons i' is =>
        cases hi
        exact (hm x).1 (i, _) rfl
    rw [Left, hen, Bool.and_false, if_neg Bool.false_ne_true]
    show if _ then 0 ≤ _ else 0 ≤ _
    split <;> exact Nat.zero_le _
  refine ⟨hle, ?_⟩
  constructor
  · intro hall x
    rw [← readWaits_eq_nil (w := 0), List.eq_nil_iff_forall_not_mem]
    intro k hk
    have hlow := hle x k hk
    have heq := hall x k hk
    omega
  · intro hnone x k hk
    rw [readWaits_eq_nil.2 (hnone x)] at hk
    cases hk

/-- Two reads with a depth of three: the second one waits for one cycle. -/
theorem read_waits_three :
    let P : Params := { readWaitCycles := 3 }
    let is := [readSetup P, readAccess P, fun _ => .idle P, readSetup P, readAccess P, readAccess P]
    readWaits false 0 ((slave P).trace (State.zero P) is) = [0, 1] ∧
      ∀ x, ∀ k ∈ readWaits x 0 ((slave P).trace (State.zero P) is), k ≤ 1 :=
  ⟨by decide, (read_waits (P := { readWaitCycles := 3 }) (by decide) (isReset_zero _) (by decide)).1⟩

/-- The first read after reset does not wait at all. -/
theorem read_waits_violated :
    ¬ ∀ (P : Params) (is : List (In P)), 1 ≤ P.readWaitCycles → (∀ x, MasterOk x ((slave P).trace (State.zero P) is)) →
      ∀ x, ∀ k ∈ readWaits x 0 ((slave P).trace (State.zero P) is), k = P.readWaitCycles := by
  intro h
  let P : Params := { readWaitCycles := 2 }
  have h0 := h P [readSetup P, readAccess P] (by decide) (by decide) false 0 (by decide)
  cases h0

end AxiApb.DualMemWs
