import AxiApb.Pairing
import AxiApb.Prediction

/-!
# The scoreboard

`bridge_scoreboard` predicts the APB transfers of each AXI transaction, buffers the transfers that the APB monitors
observe, and compares the two kinds port by port in the order in which they come.  It keeps a shadow of the memories
behind the ports, which completed writes update and reads are checked against.  The calls are those of the analysis
ports; the messages of `uvm_error` and the counters that only `report_phase` prints are left out.
-/

namespace AxiApb

namespace Scoreboard

/-- The fields of `bridge_env_cfg` that the scoreboard reads. -/
structure Cfg where
  dataWidth : BitVec 32 := 64
  apbSelBit : BitVec 32 := 31
  decodeKind : BridgeDecodeKind := .burst
  apbMemAddrMsb : BitVec 32 := 9
  apbMemAddrLsb : BitVec 32 := 2
  hasScoreboard : Bool := true
deriving DecidableEq

/-- `bridge_apb_tr` -/
structure ApbTr where
  port : BitVec 32
  paddr : BitVec 64
  pwrite : Bool
  pwdata : BitVec 64
  pstrb : BitVec 8
  prdata : BitVec 64
  pslverr : Bool
deriving DecidableEq

/-- `bridge_axi_wr_tr` -/
structure AxiWrTr where
  addr : BitVec 64
  awlen : BitVec 8
  awsize : BitVec 3
  awburst : BitVec 2
  bresp : BitVec 2
  wdata : List (BitVec 64)
  wstrb : List (BitVec 8)
deriving DecidableEq

/-- `bridge_axi_rd_tr` -/
structure AxiRdTr where
  addr : BitVec 64
  arlen : BitVec 8
  arsize : BitVec 3
  arburst : BitVec 2
  rresp : BitVec 2
  rdata : List (BitVec 64)
deriving DecidableEq

/-- `slv_shadow`, and the memories that it mirrors. -/
abbrev Shadow := BitVec 32 → Option (BitVec 64)

/-- The queues are indexed by the port. -/
@[ext]
structure State where
  predWr : Bool → List ApbTr
  predRd : Bool → List ApbTr
  bufWrObs : Bool → List ApbTr
  bufRdObs : Bool → List ApbTr
  slvShadow : Shadow
  mismatch : BitVec 32

/-- The scoreboard when it is made. -/
def State.new : State := ⟨fun _ => [], fun _ => [], fun _ => [], fun _ => [], fun _ => none, 0⟩

/-- `uvm_error` and `mismatch++`. -/
def State.error (s : State) : State := { s with mismatch := s.mismatch + 1#32 }

def State.check (s : State) (ok : Bool) : State := if ok then s else s.error

/-- The number of a port. -/
def portIx (p : Bool) : BitVec 32 := if p then 1 else 0

section
variable (c : Cfg)

/-! ### The shadow -/

def ramKeyOf (portIx aa : BitVec 32) : BitVec 32 :=
  let wdIx := (aa >>> c.apbMemAddrLsb) &&& ((1#32 <<< (c.apbMemAddrMsb - c.apbMemAddrLsb + 1#32)) - 1#32)
  (portIx <<< 20) ||| wdIx

def truncDw (d : BitVec 64) : BitVec 64 := if c.dataWidth = 32 then (d.setWidth 32).setWidth 64 else d

def shadowPeekRd (s : State) (portIx aa : BitVec 32) : BitVec 64 :=
  match s.slvShadow (ramKeyOf c portIx aa) with
  | some v => truncDw c v
  | none => truncDw c 0

def shadowCommitWr (s : State) (portIx aa : BitVec 32) (pw : BitVec 64) : State :=
  { s with slvShadow := Function.update s.slvShadow (ramKeyOf c portIx aa) (some (truncDw c pw)) }

def pbMaskRd (dwbits : BitVec 32) : BitVec 8 :=
  if dwbits = 32 then 0x0F else if dwbits = 64 then 0xFF else 0xFF

/-! ### Comparing -/

/-- The `int` division of `byte_match` rounds to zero. -/
def byteMatch (we : BitVec 64) (spe : BitVec 8) (wo : BitVec 64) (spo : BitVec 8) (dw : BitVec 32) : Bool :=
  let nb := (dw.toInt.tdiv 8).toNat
  (List.range nb).all fun i =>
    !(spe.getLsbD i && spo.getLsbD i && we.extractLsb' (8 * i) 8 != wo.extractLsb' (8 * i) 8)

def oneWrHit (p : Bool) (s : State) : State :=
  match s.predWr p, s.bufWrObs p with
  | pred :: preds, obs :: obss =>
    let s := { s with
      predWr := Function.update s.predWr p preds
      bufWrObs := Function.update s.bufWrObs p obss }
    let s := s.check !(pred.port != obs.port || pred.port != portIx p || !obs.pwrite)
    let s := s.check (pred.paddr.setWidth 32 == obs.paddr.setWidth 32)
    let s := s.check (byteMatch pred.pwdata pred.pstrb obs.pwdata obs.pstrb c.dataWidth)
    if !obs.pslverr then shadowCommitWr c s obs.port (obs.paddr.setWidth 32) obs.pwdata else s
  | _, _ => s

def oneRdHit (p : Bool) (s : State) : State :=
  match s.predRd p, s.bufRdObs p with
  | pred :: preds, obs :: obss =>
    let s := { s with
      predRd := Function.update s.predRd p preds
      bufRdObs := Function.update s.bufRdObs p obss }
    let s := s.check !(pred.port != obs.port || pred.port != portIx p || obs.pwrite)
    let s := s.check (pred.paddr.setWidth 32 == obs.paddr.setWidth 32)
    s.check !(!obs.pslverr && truncDw c pred.prdata != truncDw c obs.prdata)
  | _, _ => s

/-- `while (pred.size() > 0 && buf.size() > 0) hit`, with at most `n` turns. -/
def reconcile (pred buf : State → List ApbTr) (hit : State → State) : Nat → State → State
  | 0, s => s
  | n + 1, s =>
    if 0 < (pred s).length ∧ 0 < (buf s).length then reconcile pred buf hit n (hit s) else s

def reconcileWrPort (p : Bool) (s : State) : State :=
  reconcile (·.predWr p) (·.bufWrObs p) (oneWrHit c p) (s.predWr p).length s

def reconcileRdPort (p : Bool) (s : State) : State :=
  reconcile (·.predRd p) (·.bufRdObs p) (oneRdHit c p) (s.predRd p).length s

def reconcileWrPorts (s : State) : State := reconcileWrPort c true (reconcileWrPort c false s)

def reconcileRdPorts (s : State) : State := reconcileRdPort c true (reconcileRdPort c false s)

/-! ### The calls -/

/-- The body of `write_apb0` and `write_apb1`. -/
def ingestApb (p : Bool) (obs : ApbTr) (s : State) : State :=
  if !c.hasScoreboard then s
  else if obs.pwrite then
    reconcileWrPort c p { s with bufWrObs := Function.update s.bufWrObs p (s.bufWrObs p ++ [obs]) }
  else
    reconcileRdPort c p { s with bufRdObs := Function.update s.bufRdObs p (s.bufRdObs p ++ [obs]) }

def writeApb0 := ingestApb c false
def writeApb1 := ingestApb c true

/-- The check of the response to a transaction that the bridge should reject or not. -/
def State.checkResp (s : State) (txnIllegal : Bool) (resp : BitVec 2) : State :=
  if txnIllegal && resp != 0b11#2 then s.error
  else if !txnIllegal && resp == 0b11#2 then s.error
  else s

/-- The prediction for beat `b` of a write, with the number of its port.  A strobe that was not captured enables
nothing. -/
def predictWr (t : AxiWrTr) (b : Nat) : Bool × ApbTr :=
  let aa := bridgeBeatAddr (t.addr.setWidth 32) (BitVec.ofNat 32 b) t.awsize t.awburst
  let pidx := portDecode aa c.apbSelBit.toNat
  (pidx, ⟨portIx pidx, aa.setWidth 64, true, t.wdata.getD b 0, t.wstrb.getD b 0, 0, false⟩)

def State.pushPredWr (s : State) (pred : Bool × ApbTr) : State :=
  { s with predWr := Function.update s.predWr pred.1 (s.predWr pred.1 ++ [pred.2]) }

def awIllegal (t : AxiWrTr) : Bool :=
  bridgeAwTxnDecerr c.decodeKind c.dataWidth.toNat c.apbSelBit.toNat (t.addr.setWidth 32) t.awlen t.awsize t.awburst

def writeAxiWr (t : AxiWrTr) (s : State) : State :=
  if !c.hasScoreboard then s
  else
    let txnIllegal := awIllegal c t
    let s := s.checkResp txnIllegal t.bresp
    if txnIllegal then s
    else if t.bresp == 0b10#2 then
      -- as many beats as were captured
      reconcileWrPorts c ((List.range t.wdata.length).foldl (fun s b => s.pushPredWr (predictWr c t b)) s)
    else if t.awlen.toNat + 1 != t.wdata.length || t.wdata.length != t.wstrb.length then s.error
    else
      reconcileWrPorts c ((List.range (t.awlen.toNat + 1)).foldl (fun s b => s.pushPredWr (predictWr c t b)) s)

def State.pushPredRd (s : State) (pred : Bool × ApbTr) : State :=
  { s with predRd := Function.update s.predRd pred.1 (s.predRd pred.1 ++ [pred.2]) }

def arIllegal (t : AxiRdTr) : Bool :=
  bridgeArTxnDecerr c.decodeKind c.dataWidth.toNat c.apbSelBit.toNat (t.addr.setWidth 32) t.arlen t.arsize t.arburst

/-- Beat `b` of a rejected read. -/
def decerrBeat (t : AxiRdTr) (s : State) (b : Nat) : State :=
  let wdSh := if t.rdata.length > b then trunc64 (t.rdata.getD b 0) else trunc64 0xdeadbeefdeadbeef
  s.check (wdSh == 0)

/-- Beat `b` of any other read. -/
def readBeat (t : AxiRdTr) (s : State) (b : Nat) : State :=
  let aa := bridgeBeatAddr (t.addr.setWidth 32) (BitVec.ofNat 32 b) t.arsize t.arburst
  let pidx := portDecode aa c.apbSelBit.toNat
  let wdSh := shadowPeekRd c s (portIx pidx) aa
  let s := s.check (truncDw c (t.rdata.getD b 0) == wdSh)
  s.pushPredRd (pidx, ⟨portIx pidx, aa.setWidth 64, false, 0, pbMaskRd c.dataWidth, wdSh, false⟩)

def writeAxiRd (t : AxiRdTr) (s : State) : State :=
  if !c.hasScoreboard then s
  else
    let txnIllegal := arIllegal c t
    let s := s.checkResp txnIllegal t.rresp
    if txnIllegal then (List.range (t.arlen.toNat + 1)).foldl (decerrBeat t) s
    else if t.arlen.toNat + 1 != t.rdata.length then s.error
    else reconcileRdPorts c ((List.range (t.arlen.toNat + 1)).foldl (readBeat c t) s)

def reportPhase (s : State) : State :=
  if !c.hasScoreboard then s
  else
    let s := s.check ((s.predWr false).length == 0 && (s.predWr true).length == 0 &&
      (s.bufWrObs false).length == 0 && (s.bufWrObs true).length == 0)
    s.check ((s.predRd false).length == 0 && (s.predRd true).length == 0 &&
      (s.bufRdObs false).length == 0 && (s.bufRdObs true).length == 0)

end

/-- What the monitors deliver. -/
inductive Call
  | axiWr (t : AxiWrTr)
  | axiRd (t : AxiRdTr)
  | apb (p : Bool) (obs : ApbTr)
deriving DecidableEq

def Call.isAxi : Call → Bool
  | .axiWr _ | .axiRd _ => true
  | .apb .. => false

def call (c : Cfg) (s : State) : Call → State
  | .axiWr t => writeAxiWr c t s
  | .axiRd t => writeAxiRd c t s
  | .apb false obs => writeApb0 c obs s
  | .apb true obs => writeApb1 c obs s

/-- The scoreboard after some calls. -/
def after (c : Cfg) (cs : List Call) : State := cs.foldl (call c) .new

/-- No prediction and no observation waits. -/
def State.Idle (s : State) : Prop :=
  ∀ p, s.predWr p = [] ∧ s.predRd p = [] ∧ s.bufWrObs p = [] ∧ s.bufRdObs p = []

instance (s : State) : Decidable s.Idle := inferInstanceAs (Decidable (∀ p, s.predWr p = [] ∧ _))

end Scoreboard

end AxiApb
