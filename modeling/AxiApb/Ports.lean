import AxiApb.Clocked

/-!
# Ports of the bridges

The two bridges have the same parameters and the same ports.  This file names them and fixes what is seen on the
wires in one clock cycle: the inputs and the view `Out` of the outputs, in which a payload is present only while it
is qualified (`BID`, `BRESP` while `BVALID`; `PADDR`, `PPROT`, `PWRITE` while `PSEL`; `PWDATA`, `PSTRB` while
`PSEL` and `PWRITE`).  The handshakes of a cycle and of a trace are read off this view.  The prefix `S_AXI_` of the
AXI ports is dropped.
-/

namespace AxiApb

open Clocked

structure Params where
  idWidth : Nat := 4
  addrWidth : Nat := 32
  dataWidth : Nat := 64
  apbAddrBit : Nat := 31

/-- The supported configuration: 32-bit addresses, 64-bit data, port select by bit 31, any `ID_WIDTH`. -/
abbrev contract (idWidth : Nat) : Params := { idWidth := idWidth }

/-- The localparam `EXPECTED_AXSIZE`, the same table in both bridges. -/
def Params.expectedAxsize (P : Params) : BitVec 3 :=
  if P.dataWidth = 1024 then 0b111#3
  else if P.dataWidth = 512 then 0b110#3
  else if P.dataWidth = 256 then 0b101#3
  else if P.dataWidth = 128 then 0b100#3
  else if P.dataWidth = 64 then 0b011#3
  else if P.dataWidth = 32 then 0b010#3
  else if P.dataWidth = 16 then 0b001#3
  else 0b000#3

abbrev Id (P : Params) := BitVec P.idWidth
abbrev Addr (P : Params) := BitVec P.addrWidth
abbrev Data (P : Params) := BitVec P.dataWidth
abbrev Strb (P : Params) := BitVec (P.dataWidth / 8)

/-! ### Encodings -/

abbrev respOkay : BitVec 2 := 0b00#2
abbrev respSlverr : BitVec 2 := 0b10#2
abbrev respDecerr : BitVec 2 := 0b11#2

abbrev burstFixed : BitVec 2 := 0b00#2
abbrev burstIncr : BitVec 2 := 0b01#2

/-- The inputs sampled at one clock edge. -/
structure In (P : Params) where
  awid : Id P
  awaddr : Addr P
  awlen : BitVec 8
  awsize : BitVec 3
  awburst : BitVec 2
  awprot : BitVec 3
  awvalid : Bool
  wdata : Data P
  wstrb : Strb P
  wlast : Bool
  wvalid : Bool
  bready : Bool
  arid : Id P
  araddr : Addr P
  arlen : BitVec 8
  arsize : BitVec 3
  arburst : BitVec 2
  arprot : BitVec 3
  arvalid : Bool
  rready : Bool
  prdata0 : Data P
  pready0 : Bool
  pslverr0 : Bool
  prdata1 : Data P
  pready1 : Bool
  pslverr1 : Bool
deriving DecidableEq

/-- All inputs low. -/
def In.zero (P : Params) : In P :=
  { awid := 0, awaddr := 0, awlen := 0, awsize := 0, awburst := 0, awprot := 0, awvalid := false
    wdata := 0, wstrb := 0, wlast := false, wvalid := false, bready := false
    arid := 0, araddr := 0, arlen := 0, arsize := 0, arburst := 0, arprot := 0, arvalid := false
    rready := false
    prdata0 := 0, pready0 := false, pslverr0 := false, prdata1 := 0, pready1 := false, pslverr1 := false }

section
variable {P : Params}

def In.prdata (i : In P) (x : Bool) : Data P := if x then i.prdata1 else i.prdata0
def In.pready (i : In P) (x : Bool) : Bool := if x then i.pready1 else i.pready0
def In.pslverr (i : In P) (x : Bool) : Bool := if x then i.pslverr1 else i.pslverr0

/-- The registers behind one APB master port. -/
structure Port (P : Params) where
  paddr : Addr P
  pprot : BitVec 3
  psel : Bool
  penable : Bool
  pwrite : Bool
  pwdata : Data P
  pstrb : Strb P
deriving DecidableEq

def Port.zero (P : Params) : Port P :=
  { paddr := 0, pprot := 0, psel := false, penable := false, pwrite := false, pwdata := 0, pstrb := 0 }

/-- `PSEL` and `PENABLE` low, the payload kept. -/
def Port.release (p : Port P) : Port P := { p with psel := false, penable := false }

/-! ### The view of the outputs -/

structure WBeat (P : Params) where
  wdata : Data P
  wstrb : Strb P
  wlast : Bool
deriving DecidableEq

structure BBeat (P : Params) where
  bid : Id P
  bresp : BitVec 2
deriving DecidableEq

structure RBeat (P : Params) where
  rid : Id P
  rdata : Data P
  rresp : BitVec 2
  rlast : Bool
deriving DecidableEq

/-- The qualified control of an APB transfer; `payload` is `PWDATA` and `PSTRB` of a write. -/
structure Ctrl (P : Params) where
  paddr : Addr P
  pprot : BitVec 3
  pwrite : Bool
  payload : Option (Data P × Strb P)
deriving DecidableEq

structure PortView (P : Params) where
  psel : Bool
  penable : Bool
  ctrl : Option (Ctrl P)
deriving DecidableEq

def Port.ctrl (p : Port P) : Ctrl P :=
  ⟨p.paddr, p.pprot, p.pwrite, if p.pwrite then some (p.pwdata, p.pstrb) else none⟩

def Port.view (p : Port P) : PortView P :=
  ⟨p.psel, p.penable, if p.psel then some p.ctrl else none⟩

/-- An APB port that is not selected. -/
def PortView.quiet : PortView P := ⟨false, false, none⟩

structure Out (P : Params) where
  awready : Bool
  wready : Bool
  arready : Bool
  b : Option (BBeat P)
  r : Option (RBeat P)
  apb0 : PortView P
  apb1 : PortView P
deriving DecidableEq

def Out.apb (o : Out P) (x : Bool) : PortView P := if x then o.apb1 else o.apb0

/-- A completed APB transfer, with what the slave answered. -/
structure Xfer (P : Params) where
  port : Bool
  ctrl : Ctrl P
  prdata : Data P
  pslverr : Bool
deriving DecidableEq

/-- What an accepted `AW` or `AR` carries. -/
structure Req (P : Params) where
  id : Id P
  addr : Addr P
  len : BitVec 8
  size : BitVec 3
  burst : BitVec 2
  prot : BitVec 3
deriving DecidableEq

/-- The number of beats asked for. -/
def Req.beats (q : Req P) : Nat := q.len.toNat + 1

/-- The APB port that serves the request. -/
def Req.port (q : Req P) : Bool := q.addr.getLsbD P.apbAddrBit

def In.awReq (i : In P) : Req P := ⟨i.awid, i.awaddr, i.awlen, i.awsize, i.awburst, i.awprot⟩
def In.arReq (i : In P) : Req P := ⟨i.arid, i.araddr, i.arlen, i.arsize, i.arburst, i.arprot⟩
def In.wBeat (i : In P) : WBeat P := ⟨i.wdata, i.wstrb, i.wlast⟩

/-- The inputs `i` with a write request, a read request or a W beat offered. -/
def In.withAw (i : In P) (q : Req P) : In P :=
  { i with awid := q.id, awaddr := q.addr, awlen := q.len, awsize := q.size, awburst := q.burst, awprot := q.prot
           awvalid := true }

def In.withAr (i : In P) (q : Req P) : In P :=
  { i with arid := q.id, araddr := q.addr, arlen := q.len, arsize := q.size, arburst := q.burst, arprot := q.prot
           arvalid := true }

def In.withW (i : In P) (w : WBeat P) : In P :=
  { i with wdata := w.wdata, wstrb := w.wstrb, wlast := w.wlast, wvalid := true }

/-- The inputs of a cycle in which all partners are ready and nothing is offered. -/
def In.ready (P : Params) : In P :=
  { In.zero P with bready := true, rready := true, pready0 := true, pready1 := true }

/-! ### Handshakes -/

abbrev Cycle (P : Params) := In P × Out P

def awTaken (c : Cycle P) : Bool := c.1.awvalid && c.2.awready
def arTaken (c : Cycle P) : Bool := c.1.arvalid && c.2.arready

/-- An address handshake, of a write or of a read. -/
def reqTaken (c : Cycle P) : Bool := awTaken c || arTaken c

/-- The write request accepted in a cycle, if any; likewise the read request. -/
def awAccepted (c : Cycle P) : List (Req P) := if awTaken c then [c.1.awReq] else []
def arAccepted (c : Cycle P) : List (Req P) := if arTaken c then [c.1.arReq] else []

/-- The W beat accepted in a cycle, if any; likewise the B and the R beat. -/
def wTaken (c : Cycle P) : List (WBeat P) := if c.1.wvalid && c.2.wready then [c.1.wBeat] else []
def bTaken (c : Cycle P) : List (BBeat P) := if c.1.bready then c.2.b.toList else []
def rTaken (c : Cycle P) : List (RBeat P) := if c.1.rready then c.2.r.toList else []

section
variable {c : Cycle P}

theorem bTaken_none (h : c.2.b = none) : bTaken c = [] := by simp [bTaken, h]

theorem bTaken_held (h : c.1.bready = false) : bTaken c = [] := by simp [bTaken, h]

theorem bTaken_some {b : BBeat P} (h : c.2.b = some b) (hready : c.1.bready = true) : bTaken c = [b] := by
  simp [bTaken, h, hready]

theorem rTaken_none (h : c.2.r = none) : rTaken c = [] := by simp [rTaken, h]

theorem rTaken_held (h : c.1.rready = false) : rTaken c = [] := by simp [rTaken, h]

theorem rTaken_some {r : RBeat P} (h : c.2.r = some r) (hready : c.1.rready = true) : rTaken c = [r] := by
  simp [rTaken, h, hready]

end

/-- The transfer that completes on port `x` in a cycle: `PSELx & PENABLEx & PREADYx`. -/
def xferOn (x : Bool) (c : Cycle P) : List (Xfer P) :=
  if (c.2.apb x).psel && (c.2.apb x).penable && c.1.pready x then
    (c.2.apb x).ctrl.toList.map fun k => ⟨x, k, c.1.prdata x, c.1.pslverr x⟩
  else []

def xferTaken (c : Cycle P) : List (Xfer P) := xferOn false c ++ xferOn true c

theorem xferTaken_quiet {c : Cycle P} (h : ∀ x, c.2.apb x = .quiet) : xferTaken c = [] := by
  simp [xferTaken, xferOn, h, PortView.quiet]

/-- While one port is driven, the transfer of a cycle is the one on this port. -/
theorem xferTaken_drive {c : Cycle P} {y en : Bool} {k : Ctrl P}
    (h : ∀ x, c.2.apb x = if x = y then ⟨true, en, some k⟩ else .quiet) :
    xferTaken c = if en && c.1.pready y then [⟨y, k, c.1.prdata y, c.1.pslverr y⟩] else [] := by
  have hon : xferOn y c = if en && c.1.pready y then [⟨y, k, c.1.prdata y, c.1.pslverr y⟩] else [] := by
    simp [xferOn, h]
  have hoff : xferOn (!y) c = [] := by simp [xferOn, h, PortView.quiet]
  rw [xferTaken]
  cases y with
  | false => rw [hon, show xferOn true c = [] from hoff, List.append_nil]
  | true => rw [hon, show xferOn false c = [] from hoff, List.nil_append]

/-- The accepted W beats of a trace, in order; likewise the accepted write and read requests, the accepted B and R beats
and the completed transfers. -/
def wBeats (tr : List (Cycle P)) : List (WBeat P) := tr.flatMap wTaken
def awReqs (tr : List (Cycle P)) : List (Req P) := tr.flatMap awAccepted
def arReqs (tr : List (Cycle P)) : List (Req P) := tr.flatMap arAccepted
def bBeats (tr : List (Cycle P)) : List (BBeat P) := tr.flatMap bTaken
def rBeats (tr : List (Cycle P)) : List (RBeat P) := tr.flatMap rTaken
def xfers (tr : List (Cycle P)) : List (Xfer P) := tr.flatMap xferTaken

@[simp] theorem wBeats_concat (tr : List (Cycle P)) (c : Cycle P) : wBeats (tr ++ [c]) = wBeats tr ++ wTaken c := by
  simp [wBeats]

@[simp] theorem awReqs_concat (tr : List (Cycle P)) (c : Cycle P) : awReqs (tr ++ [c]) = awReqs tr ++ awAccepted c := by
  simp [awReqs]

@[simp] theorem arReqs_concat (tr : List (Cycle P)) (c : Cycle P) : arReqs (tr ++ [c]) = arReqs tr ++ arAccepted c := by
  simp [arReqs]

@[simp] theorem bBeats_concat (tr : List (Cycle P)) (c : Cycle P) : bBeats (tr ++ [c]) = bBeats tr ++ bTaken c := by
  simp [bBeats]

@[simp] theorem rBeats_concat (tr : List (Cycle P)) (c : Cycle P) : rBeats (tr ++ [c]) = rBeats tr ++ rTaken c := by
  simp [rBeats]

@[simp] theorem xfers_concat (tr : List (Cycle P)) (c : Cycle P) : xfers (tr ++ [c]) = xfers tr ++ xferTaken c := by
  simp [xfers]

end

end AxiApb
