import AxiApb.ByteStore
import AxiApb.Ports

/-!
# The register block

`axi3lite_regblock` as it is written, with `DATA_WIDTH` 32: 32 registers behind an AXI3-Lite slave port.  Its two
`always` blocks are the write and the read state machine; the write block owns the register file.  The reset is
synchronous.  `AWPROT` and `ARPROT` are not read and are left out.
-/

namespace AxiApb.RegBlock

open Clocked

structure Params where
  idWidth : Nat := 4
  addrWidth : Nat := 32

/-! ### The wires -/

section
variable (P : Params)

structure In where
  awid : BitVec P.idWidth
  awaddr : BitVec P.addrWidth
  awvalid : Bool
  wid : BitVec P.idWidth
  wdata : BitVec 32
  wstrb : BitVec 4
  wvalid : Bool
  bready : Bool
  arid : BitVec P.idWidth
  araddr : BitVec P.addrWidth
  arvalid : Bool
  rready : Bool
deriving DecidableEq

/-- All inputs low. -/
def In.zero : In P :=
  { awid := 0, awaddr := 0, awvalid := false, wid := 0, wdata := 0, wstrb := 0, wvalid := false, bready := false
    arid := 0, araddr := 0, arvalid := false, rready := false }

/-- What an accepted `AW` or `AR` carries. -/
structure Req where
  id : BitVec P.idWidth
  addr : BitVec P.addrWidth
deriving DecidableEq

structure WBeat where
  wid : BitVec P.idWidth
  wdata : BitVec 32
  wstrb : BitVec 4
deriving DecidableEq

structure BBeat where
  bid : BitVec P.idWidth
  bresp : BitVec 2
deriving DecidableEq

structure RBeat where
  rid : BitVec P.idWidth
  rdata : BitVec 32
  rresp : BitVec 2
deriving DecidableEq

/-- The outputs of a cycle; a payload is present while its `VALID` is high. -/
structure Out where
  awready : Bool
  wready : Bool
  b : Option (BBeat P)
  arready : Bool
  r : Option (RBeat P)
deriving DecidableEq

abbrev Cycle := In P × Out P

end

variable {P : Params}

def In.awReq (i : In P) : Req P := ⟨i.awid, i.awaddr⟩
def In.arReq (i : In P) : Req P := ⟨i.arid, i.araddr⟩
def In.wBeat (i : In P) : WBeat P := ⟨i.wid, i.wdata, i.wstrb⟩

/-- The inputs `i` with a write request, a W beat or a read request offered. -/
def In.withAw (i : In P) (q : Req P) : In P := { i with awid := q.id, awaddr := q.addr, awvalid := true }
def In.withW (i : In P) (w : WBeat P) : In P :=
  { i with wid := w.wid, wdata := w.wdata, wstrb := w.wstrb, wvalid := true }
def In.withAr (i : In P) (q : Req P) : In P := { i with arid := q.id, araddr := q.addr, arvalid := true }

/-! ### The registers -/

/-- `addr[6:2]`, and the test of `addr[ADDR_WIDTH-1:7]`. -/
def regIndex (addr : BitVec P.addrWidth) : BitVec 5 := addr.extractLsb' 2 5
def inRange (addr : BitVec P.addrWidth) : Bool := addr.extractLsb' 7 (P.addrWidth - 7) == 0

/-- The codes of `wr_state`; `unused` is `2'd3`, which falls to the `default` arm. -/
inductive WrState
  | idle | haveAw | resp | unused
deriving DecidableEq

inductive RdState
  | idle | resp
deriving DecidableEq

abbrev RegFile := BitVec 5 → BitVec 32

/-- The registers of the write block. -/
structure WrRegs (P : Params) where
  wrState : WrState
  awready : Bool
  wready : Bool
  bvalid : Bool
  bid : BitVec P.idWidth
  bresp : BitVec 2
  wrId : BitVec P.idWidth
  wrIdx : BitVec 5
  wrRange : Bool
  regfile : RegFile

/-- The registers of the read block. -/
structure RdRegs (P : Params) where
  rdState : RdState
  arready : Bool
  rvalid : Bool
  rid : BitVec P.idWidth
  rdata : BitVec 32
  rresp : BitVec 2

structure State (P : Params) extends WrRegs P, RdRegs P

/-! ### The blocks -/

/-- The four `if (S_AXI_WSTRB[k]) regfile[wr_idx][8*k +: 8] <= …`. -/
def storeBytes (m : RegFile) (k : BitVec 5) (data : BitVec 32) (strb : BitVec 4) : RegFile :=
  Function.update m k (ByteStore.mergeBytes (m k) data strb)

def wrIdle (s : State P) (i : In P) : WrRegs P :=
  let t := { s.toWrRegs with awready := true, wready := false }
  if i.awvalid && s.awready then
    { t with awready := false, wready := true, wrId := i.awid, wrIdx := regIndex i.awaddr
             wrRange := inRange i.awaddr, wrState := .haveAw }
  else t

def wrHaveAw (s : State P) (i : In P) : WrRegs P :=
  if i.wvalid && s.wready then
    let t := { s.toWrRegs with wready := false, bvalid := true, bid := s.wrId, wrState := .resp }
    if !s.wrRange || i.wid != s.wrId then { t with bresp := 0b10#2 }
    else { t with bresp := 0b00#2, regfile := storeBytes s.regfile s.wrIdx i.wdata i.wstrb }
  else s.toWrRegs

def wrBlock (s : State P) (i : In P) : WrRegs P :=
  match s.wrState with
  | .idle => wrIdle s i
  | .haveAw => wrHaveAw s i
  | .resp => if s.bvalid && i.bready then { s.toWrRegs with bvalid := false, wrState := .idle } else s.toWrRegs
  | .unused => { s.toWrRegs with wrState := .idle }

def rdBlock (s : State P) (i : In P) : RdRegs P :=
  match s.rdState with
  | .idle =>
    let t := { s.toRdRegs with arready := true }
    if i.arvalid && s.arready then
      let t := { t with arready := false, rid := i.arid, rvalid := true, rdState := .resp }
      -- the register file is that before the edge, also when a W beat is accepted at the same edge
      if inRange i.araddr then { t with rdata := s.regfile (regIndex i.araddr), rresp := 0b00#2 }
      else { t with rdata := 0, rresp := 0b10#2 }
    else t
  | .resp => if s.rvalid && i.rready then { s.toRdRegs with rvalid := false, rdState := .idle } else s.toRdRegs

/-! ### The circuit -/

/-- A clock edge with `ARESETn` high. -/
def posedge (s : State P) (i : In P) : State P :=
  { toWrRegs := wrBlock s i
    toRdRegs := rdBlock s i }

/-- The values that are loaded while `ARESETn` is low: every register of both blocks is listed. -/
def State.zero (P : Params) : State P :=
  { wrState := .idle, awready := false, wready := false, bvalid := false, bid := 0, bresp := 0b00#2, wrId := 0
    wrIdx := 0, wrRange := false, regfile := fun _ => 0
    rdState := .idle, arready := false, rvalid := false, rid := 0, rdata := 0, rresp := 0b00#2 }

/-- A clock edge with `ARESETn` low. -/
def reset (_ : State P) : State P := .zero P

/-- What the ports show in a cycle. -/
def out (s : State P) (_ : In P) : Out P :=
  { awready := s.awready
    wready := s.wready
    b := if s.bvalid then some ⟨s.bid, s.bresp⟩ else none
    arready := s.arready
    r := if s.rvalid then some ⟨s.rid, s.rdata, s.rresp⟩ else none }

def block (P : Params) : Machine (In P) (Out P) (State P) := ⟨posedge, out⟩

/-- The states right after a reset. -/
def IsReset (s : State P) : Prop := ∃ s₀, s = reset s₀

/-- The states of all runs from reset, whatever the inputs are. -/
def Reachable (s : State P) : Prop := (block P).Reachable IsReset s

theorem isReset_zero (P : Params) : IsReset (State.zero P) := ⟨State.zero P, rfl⟩

theorem reachable_zero (P : Params) : Reachable (State.zero P) := ⟨_, [], isReset_zero P, by simp, rfl⟩

/-! ### Handshakes -/

/-- What is accepted on the channels in a cycle. -/
def awTaken (c : Cycle P) : List (Req P) := if c.1.awvalid && c.2.awready then [c.1.awReq] else []
def wTaken (c : Cycle P) : List (WBeat P) := if c.1.wvalid && c.2.wready then [c.1.wBeat] else []
def bTaken (c : Cycle P) : List (BBeat P) := if c.1.bready then c.2.b.toList else []
def arTaken (c : Cycle P) : List (Req P) := if c.1.arvalid && c.2.arready then [c.1.arReq] else []
def rTaken (c : Cycle P) : List (RBeat P) := if c.1.rready then c.2.r.toList else []

/-- The W and B beats accepted in a trace. -/
def wBeats (tr : List (Cycle P)) : List (WBeat P) := tr.flatMap wTaken
def bBeats (tr : List (Cycle P)) : List (BBeat P) := tr.flatMap bTaken

@[simp] theorem wBeats_concat (tr : List (Cycle P)) (c : Cycle P) : wBeats (tr ++ [c]) = wBeats tr ++ wTaken c := by
  simp [wBeats]

@[simp] theorem bBeats_concat (tr : List (Cycle P)) (c : Cycle P) : bBeats (tr ++ [c]) = bBeats tr ++ bTaken c := by
  simp [bBeats]

end AxiApb.RegBlock
