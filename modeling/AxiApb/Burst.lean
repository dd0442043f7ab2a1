import AxiApb.Ports

/-!
# The burst bridge

`axi4_to_apb4_2x_burst` as it is written: the registers of its four `always` blocks, its wires, and one function
for each block that gives the values the block's registers take at a clock edge with `ARESETn` high.  All right
hand sides read the registers before the edge; where a block assigns a register more than once, the last
assignment wins.
-/

namespace AxiApb.Burst

open Clocked

/-- The codes of `apb_state`; `unused` is `2'd3`, which falls to the `default` arm. -/
inductive ApbState
  | idle | setup | access | unused
deriving DecidableEq

/-- The registers of the transaction block. -/
structure TxnRegs (P : Params) where
  axiIdReg : Id P
  axiAddrReg : Addr P
  axiProtReg : BitVec 3
  axiSizeReg : BitVec 3
  axiBurstReg : BitVec 2
  beatIndex : BitVec 9
  beatsSent : BitVec 9
  beatsTotal : BitVec 9
  axiIsWrite : Bool
  axiSelApb1 : Bool
  txnActive : Bool
  txnDecerr : Bool
  pslverrAcc : Bool
  wlastErr : Bool
  wDone : Bool
  rdataFifo : Data P
  rrespFifo : BitVec 2
  rfifoValid : Bool
deriving DecidableEq

/-- The registers of the APB block. -/
structure ApbRegs (P : Params) where
  apbState : ApbState
  port0 : Port P
  port1 : Port P
deriving DecidableEq

/-- The registers of the B block. -/
structure BRegs (P : Params) where
  bvalid : Bool
  bid : Id P
  bresp : BitVec 2
deriving DecidableEq

/-- The registers of the R block. -/
structure RRegs (P : Params) where
  rvalid : Bool
  rid : Id P
  rdata : Data P
  rresp : BitVec 2
  rlast : Bool
deriving DecidableEq

structure State (P : Params) extends TxnRegs P, ApbRegs P, BRegs P, RRegs P
deriving DecidableEq

section
variable {P : Params}

/-! ### Wires -/

def addrIncr (s : State P) : Addr P := s.axiAddrReg + (1#P.addrWidth <<< s.axiSizeReg)

/-- The offset of the last beat: `aw_max_offset` and `ar_max_offset`. -/
def maxOffset (P : Params) (len : BitVec 8) (size : BitVec 3) : Addr P := len.setWidth P.addrWidth <<< size

def lastAddr (addr : Addr P) (len : BitVec 8) (size : BitVec 3) : Addr P := addr + maxOffset P len size

/-- First and last beat of an `INCR` burst select different ports. -/
def crossApb (addr : Addr P) (len : BitVec 8) (size : BitVec 3) (burst : BitVec 2) : Bool :=
  burst == 0b01#2 && (addr.getLsbD P.apbAddrBit ^^ (lastAddr addr len size).getLsbD P.apbAddrBit)

def paramErr (addr : Addr P) (len : BitVec 8) (size : BitVec 3) (burst : BitVec 2) : Bool :=
  size != P.expectedAxsize || decide (burst > 0b01#2) || crossApb addr len size burst

def awParamErr (i : In P) : Bool := paramErr i.awaddr i.awlen i.awsize i.awburst
def arParamErr (i : In P) : Bool := paramErr i.araddr i.arlen i.arsize i.arburst

def busyWithResp (s : State P) : Bool := s.bvalid || s.rvalid
def idleForNew (s : State P) : Bool := !s.txnActive && !busyWithResp s && s.apbState == .idle

def awready (s : State P) (i : In P) : Bool := idleForNew s && !i.arvalid
def arready (s : State P) (i : In P) : Bool := idleForNew s && !i.awvalid

def wready (s : State P) : Bool :=
  if s.txnActive && s.axiIsWrite && !s.wDone && decide (s.beatIndex < s.beatsTotal) then
    -- a rejected write needs no port, its beats are taken one after the other
    if s.txnDecerr then true else s.apbState == .idle
  else false

def awHandshake (s : State P) (i : In P) : Bool := i.awvalid && awready s i
def arHandshake (s : State P) (i : In P) : Bool := i.arvalid && arready s i
def wHandshake (s : State P) (i : In P) : Bool := i.wvalid && wready s

/-- `n == beats_total - 1`, evaluated at the 32 bits of the literal. -/
def isLastBeat (s : State P) (n : BitVec 9) : Bool := n.setWidth 32 == s.beatsTotal.setWidth 32 - 1#32

def preadySel (s : State P) (i : In P) : Bool := if s.axiSelApb1 then i.pready1 else i.pready0
def pslverrSel (s : State P) (i : In P) : Bool := if s.axiSelApb1 then i.pslverr1 else i.pslverr0
def prdataSel (s : State P) (i : In P) : Data P := if s.axiSelApb1 then i.prdata1 else i.prdata0

/-! ### The transaction block -/

/-- The registers loaded by an address handshake; `rfifo_valid` is cleared for a read only. -/
def capture (t : TxnRegs P) (q : Req P) (write err : Bool) : TxnRegs P :=
  { t with
    axiIdReg := q.id
    axiAddrReg := q.addr
    axiProtReg := q.prot
    axiSizeReg := q.size
    axiBurstReg := q.burst
    beatsTotal := (q.len.setWidth 32 + 1#32).setWidth 9
    beatIndex := 0
    beatsSent := 0
    axiIsWrite := write
    axiSelApb1 := q.addr.getLsbD P.apbAddrBit
    txnActive := true
    txnDecerr := err
    pslverrAcc := false
    wlastErr := false
    wDone := false
    rfifoValid := if write then t.rfifoValid else false }

/-- `if (aw_handshake) … else if (ar_handshake) …` -/
def txnRequest (s : State P) (i : In P) (t : TxnRegs P) : TxnRegs P :=
  if awHandshake s i then capture t i.awReq true (awParamErr i)
  else if arHandshake s i then capture t i.arReq false (arParamErr i)
  else t

/-- `if (w_handshake && txn_active && axi_is_write) …` -/
def txnWdata (s : State P) (i : In P) (t : TxnRegs P) : TxnRegs P :=
  if wHandshake s i && s.txnActive && s.axiIsWrite then
    { t with
      wlastErr := if i.wlast != isLastBeat s s.beatIndex then true else t.wlastErr
      -- the phase ends with `WLAST`, and with the last beat when `WLAST` never comes
      wDone := if i.wlast || isLastBeat s s.beatIndex then true else t.wDone
      beatIndex := if s.txnDecerr then s.beatIndex + 1 else t.beatIndex }
  else t

/-- `if (apb_state == APB_ACCESS) …` -/
def txnApb (s : State P) (i : In P) (t : TxnRegs P) : TxnRegs P :=
  if s.apbState == .access && preadySel s i then
    { t with
      pslverrAcc := if pslverrSel s i then true else t.pslverrAcc
      rdataFifo := if !s.axiIsWrite then prdataSel s i else t.rdataFifo
      rrespFifo := if !s.axiIsWrite then (if pslverrSel s i then 0b10#2 else 0b00#2) else t.rrespFifo
      rfifoValid := if !s.axiIsWrite then true else t.rfifoValid
      axiAddrReg := if s.axiBurstReg == 0b01#2 then addrIncr s else t.axiAddrReg
      beatIndex := s.beatIndex + 1 }
  else t

/-- The end of a transaction: the B handshake, and each R handshake. -/
def txnResp (s : State P) (i : In P) (t : TxnRegs P) : TxnRegs P :=
  let t := if s.bvalid && i.bready then { t with txnActive := false } else t
  if s.rvalid && i.rready then
    { t with
      rfifoValid := false
      beatsSent := s.beatsSent + 1
      txnActive := if s.rlast then false else t.txnActive }
  else t

def txnBlock (s : State P) (i : In P) : TxnRegs P :=
  txnResp s i (txnApb s i (txnWdata s i (txnRequest s i s.toTxnRegs)))

/-! ### The APB block -/

/-- `PADDRx`, `PPROTx`, `PWRITEx` and `PSELx` of a launch, and `PWDATAx`, `PSTRBx` of a write. -/
def launchWrite (s : State P) (i : In P) (p : Port P) : Port P :=
  { p with paddr := s.axiAddrReg, pprot := s.axiProtReg, pwdata := i.wdata, pstrb := i.wstrb, pwrite := true
           psel := true }

def launchRead (s : State P) (p : Port P) : Port P :=
  { p with paddr := s.axiAddrReg, pprot := s.axiProtReg, pwrite := false, psel := true }

/-- `{PSEL0, PENABLE0, PSEL1, PENABLE1} <= 4'b0` -/
def releasePorts (a : ApbRegs P) : ApbRegs P := { a with port0 := a.port0.release, port1 := a.port1.release }

def onSelected (s : State P) (f : Port P → Port P) (a : ApbRegs P) : ApbRegs P :=
  if s.axiSelApb1 then { a with port1 := f a.port1 } else { a with port0 := f a.port0 }

def apbBlock (s : State P) (i : In P) : ApbRegs P :=
  let a := s.toApbRegs
  match s.apbState with
  | .idle =>
    let a := releasePorts a
    if s.txnActive && !s.txnDecerr && decide (s.beatIndex < s.beatsTotal) then
      if s.axiIsWrite then
        if wHandshake s i then { onSelected s (launchWrite s i) a with apbState := .setup } else a
      else
        -- the next read waits until the one-entry buffer is free again
        if !s.rfifoValid && (!s.rvalid || i.rready) then
          { onSelected s (launchRead s) a with apbState := .setup }
        else a
    else a
  | .setup => { onSelected s (fun p => { p with penable := true }) a with apbState := .access }
  | .access => if preadySel s i then { releasePorts a with apbState := .idle } else a
  | .unused => { a with apbState := .idle }

/-! ### The B and the R block -/

def bBlock (s : State P) (i : In P) : BRegs P :=
  if s.bvalid && i.bready then { s.toBRegs with bvalid := false }
  -- `w_done` may be set by a beat that is still in transfer, hence the test of `apb_state`
  else if s.txnActive && s.axiIsWrite && s.wDone && s.apbState == .idle && !s.bvalid then
    { bid := s.axiIdReg
      bresp := if s.txnDecerr then 0b11#2 else if s.pslverrAcc || s.wlastErr then 0b10#2 else 0b00#2
      bvalid := true }
  else s.toBRegs

def rBlock (s : State P) (i : In P) : RRegs P :=
  if s.rvalid && i.rready then { s.toRRegs with rvalid := false }
  else if s.txnActive && !s.axiIsWrite && decide (s.beatsSent < s.beatsTotal) && !s.rvalid then
    if s.txnDecerr then
      { rid := s.axiIdReg, rdata := 0, rresp := 0b11#2, rlast := isLastBeat s s.beatsSent, rvalid := true }
    else if s.rfifoValid then
      { rid := s.axiIdReg, rdata := s.rdataFifo, rresp := s.rrespFifo, rlast := isLastBeat s s.beatsSent
        rvalid := true }
    else s.toRRegs
  else s.toRRegs

/-! ### The circuit -/

/-- A clock edge with `ARESETn` high. -/
def posedge (s : State P) (i : In P) : State P :=
  { toTxnRegs := txnBlock s i
    toApbRegs := apbBlock s i
    toBRegs := bBlock s i
    toRRegs := rBlock s i }

/-- `ARESETn` low; the registers that are not listed keep what they hold. -/
def reset (s : State P) : State P :=
  { s with
    txnActive := false, beatIndex := 0, beatsSent := 0, beatsTotal := 0, txnDecerr := false
    pslverrAcc := false, wlastErr := false, wDone := false, rfifoValid := false
    apbState := .idle, port0 := s.port0.release, port1 := s.port1.release
    bvalid := false, bid := 0, bresp := 0b00#2
    rvalid := false, rid := 0, rdata := 0, rresp := 0b00#2, rlast := false }

/-- What the ports show in a cycle. -/
def out (s : State P) (i : In P) : Out P :=
  { awready := awready s i
    wready := wready s
    arready := arready s i
    b := if s.bvalid then some ⟨s.bid, s.bresp⟩ else none
    r := if s.rvalid then some ⟨s.rid, s.rdata, s.rresp, s.rlast⟩ else none
    apb0 := s.port0.view
    apb1 := s.port1.view }

end

def bridge (P : Params) : Machine (In P) (Out P) (State P) := ⟨posedge, out⟩

/-- All registers zero. -/
def State.zero (P : Params) : State P :=
  { axiIdReg := 0, axiAddrReg := 0, axiProtReg := 0, axiSizeReg := 0, axiBurstReg := 0
    beatIndex := 0, beatsSent := 0, beatsTotal := 0, axiIsWrite := false, axiSelApb1 := false
    txnActive := false, txnDecerr := false, pslverrAcc := false, wlastErr := false, wDone := false
    rdataFifo := 0, rrespFifo := 0, rfifoValid := false
    apbState := .idle, port0 := .zero P, port1 := .zero P
    bvalid := false, bid := 0, bresp := 0
    rvalid := false, rid := 0, rdata := 0, rresp := 0, rlast := false }

/-- The states right after a reset of arbitrary register contents. -/
def IsReset {P : Params} (s : State P) : Prop := ∃ s₀, s = reset s₀

theorem isReset_zero (P : Params) : IsReset (State.zero P) := ⟨State.zero P, rfl⟩

/-- The states of all runs from reset, whatever the inputs are. -/
def Reachable {P : Params} (s : State P) : Prop := (bridge P).Reachable IsReset s

theorem reachable_zero (P : Params) : Reachable (State.zero P) := ⟨_, [], isReset_zero P, by simp, rfl⟩

end AxiApb.Burst
