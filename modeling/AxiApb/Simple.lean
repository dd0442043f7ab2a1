import AxiApb.Ports

/-!
# The single-beat bridge

`axi4_to_apb4_2x_simple` as it is written: one `always` block, whose statements act one after the other on the values
`t` that the registers take at the clock edge, and read the registers `s` before it.
-/

namespace AxiApb.Simple

open Clocked

/-- The codes of `state`; `unused` stands for `3'd6` and `3'd7`, which fall to the `default` arm. -/
inductive StCode
  | idle | writeApb | writeResp | readApb | readResp | errResp | unused
deriving DecidableEq

structure State (P : Params) where
  state : StCode
  idReg : Id P
  addrReg : Addr P
  protReg : BitVec 3
  selApb1 : Bool
  awPending : Bool
  wPending : Bool
  errResp : BitVec 2
  wdataReg : Data P
  wstrbReg : Strb P
  bvalid : Bool
  bid : Id P
  bresp : BitVec 2
  rvalid : Bool
  rid : Id P
  rdata : Data P
  rresp : BitVec 2
  rlast : Bool
  port0 : Port P
  port1 : Port P
deriving DecidableEq

section
variable {P : Params}

/-! ### Wires -/

def awready (s : State P) (i : In P) : Bool := s.state == .idle && (!s.awPending && !i.arvalid)
def wready (s : State P) (i : In P) : Bool := s.state == .idle && (!s.wPending && !i.arvalid)

def arready (s : State P) (i : In P) : Bool :=
  s.state == .idle && (!s.awPending && !s.wPending && !i.awvalid && !i.wvalid)

/-- More than one beat, or not the full width: `len != 0 || size != EXPECTED_AXSIZE`. -/
def paramErr (P : Params) (len : BitVec 8) (size : BitVec 3) : Bool := len != 0#8 || size != P.expectedAxsize

def awHandshake (s : State P) (i : In P) : Bool := i.awvalid && awready s i
def wHandshake (s : State P) (i : In P) : Bool := i.wvalid && wready s i
def arHandshake (s : State P) (i : In P) : Bool := i.arvalid && arready s i

/-! ### The block -/

/-- Assigns to the registers of port `x`. -/
def State.setPort (t : State P) (x : Bool) (f : Port P → Port P) : State P :=
  { t with port0 := if x then t.port0 else f t.port0, port1 := if x then f t.port1 else t.port1 }

def State.port (s : State P) (x : Bool) : Port P := if x then s.port1 else s.port0

/-- The statements before the `case`. -/
def respDone (s : State P) (i : In P) (t : State P) : State P :=
  let t := if s.bvalid && i.bready then { t with bvalid := false } else t
  if s.rvalid && i.rready then { t with rvalid := false } else t

/-- `ST_IDLE`, the AW handshake -/
def idleAw (s : State P) (i : In P) (t : State P) : State P :=
  if awHandshake s i then
    let t := { t with idReg := i.awid, addrReg := i.awaddr, protReg := i.awprot
                      selApb1 := i.awaddr.getLsbD P.apbAddrBit }
    -- the bridge leaves `ST_IDLE` at once, also when the W beat is still missing
    if paramErr P i.awlen i.awsize then { t with errResp := 0b11#2, state := .errResp, awPending := true }
    else { t with awPending := true }
  else t

/-- `ST_IDLE`, the W handshake -/
def idleW (s : State P) (i : In P) (t : State P) : State P :=
  if wHandshake s i then { t with wdataReg := i.wdata, wstrbReg := i.wstrb, wPending := true } else t

/-- `PADDRx`, `PPROTx`, `PWDATAx`, `PSTRBx`, `PWRITEx` and `PSELx` of a write, and of a read. -/
def launchWrite (s : State P) (p : Port P) : Port P :=
  { p with paddr := s.addrReg, pprot := s.protReg, pwdata := s.wdataReg, pstrb := s.wstrbReg, pwrite := true
           psel := true }

def launchRead (i : In P) (p : Port P) : Port P :=
  { p with paddr := i.araddr, pprot := i.arprot, pwrite := false, psel := true }

/-- `ST_IDLE`, the launch of a write whose two halves are there -/
def idleWrite (s : State P) (t : State P) : State P :=
  let t := { t with awPending := false, wPending := false }
  -- the arm is that of `ST_IDLE`, so the source's test of `ST_ERR_RESP` never holds here
  if s.state == .errResp then t else { t.setPort s.selApb1 (launchWrite s) with state := .writeApb }

/-- `ST_IDLE`, the AR handshake -/
def idleAr (i : In P) (t : State P) : State P :=
  let t := { t with idReg := i.arid, addrReg := i.araddr, protReg := i.arprot
                    selApb1 := i.araddr.getLsbD P.apbAddrBit }
  if paramErr P i.arlen i.arsize then
    { t with rid := i.arid, rdata := 0, rresp := 0b11#2, rlast := true, rvalid := true, state := .readResp }
  else { t.setPort (i.araddr.getLsbD P.apbAddrBit) (launchRead i) with state := .readApb }

def stIdle (s : State P) (i : In P) (t : State P) : State P :=
  let t := idleW s i (idleAw s i t)
  -- the flags are those before the edge: the launch comes in the cycle after the second handshake
  if s.awPending && s.wPending then idleWrite s t
  else if arHandshake s i then idleAr i t
  else t

def stWriteApb (s : State P) (i : In P) (t : State P) : State P :=
  if !(s.port s.selApb1).penable then t.setPort s.selApb1 (fun p => { p with penable := true })
  else if i.pready s.selApb1 then
    { t.setPort s.selApb1 Port.release with
      bid := s.idReg, bresp := if i.pslverr s.selApb1 then 0b10#2 else 0b00#2, bvalid := true, state := .writeResp }
  else t

def stErrResp (s : State P) (t : State P) : State P :=
  if s.awPending && s.wPending then
    { t with awPending := false, wPending := false, bid := s.idReg, bresp := s.errResp, bvalid := true
             state := .writeResp }
  else t

def stReadApb (s : State P) (i : In P) (t : State P) : State P :=
  if !(s.port s.selApb1).penable then t.setPort s.selApb1 (fun p => { p with penable := true })
  else if i.pready s.selApb1 then
    { t.setPort s.selApb1 Port.release with
      rid := s.idReg, rdata := i.prdata s.selApb1, rresp := if i.pslverr s.selApb1 then 0b10#2 else 0b00#2
      rlast := true, rvalid := true, state := .readResp }
  else t

/-- A clock edge with `ARESETn` high. -/
def posedge (s : State P) (i : In P) : State P :=
  let t := respDone s i s
  match s.state with
  | .idle => stIdle s i t
  | .writeApb => stWriteApb s i t
  | .errResp => stErrResp s t
  | .writeResp => if !s.bvalid then { t with state := .idle } else t
  | .readApb => stReadApb s i t
  | .readResp => if !s.rvalid then { t with state := .idle } else t
  | .unused => { t with state := .idle }

/-- `ARESETn` low; the registers that are not listed keep what they hold. -/
def reset (s : State P) : State P :=
  { s with
    state := .idle, awPending := false, wPending := false, bvalid := false, rvalid := false
    port0 := s.port0.release, port1 := s.port1.release }

/-- What the ports show in a cycle. -/
def out (s : State P) (i : In P) : Out P :=
  { awready := awready s i
    wready := wready s i
    arready := arready s i
    b := if s.bvalid then some ⟨s.bid, s.bresp⟩ else none
    r := if s.rvalid then some ⟨s.rid, s.rdata, s.rresp, s.rlast⟩ else none
    apb0 := s.port0.view
    apb1 := s.port1.view }

end

def bridge (P : Params) : Machine (In P) (Out P) (State P) := ⟨posedge, out⟩

/-- All registers zero. -/
def State.zero (P : Params) : State P :=
  { state := .idle, idReg := 0, addrReg := 0, protReg := 0, selApb1 := false, awPending := false, wPending := false
    errResp := 0, wdataReg := 0, wstrbReg := 0
    bvalid := false, bid := 0, bresp := 0, rvalid := false, rid := 0, rdata := 0, rresp := 0, rlast := false
    port0 := .zero P, port1 := .zero P }

/-- The states right after a reset of arbitrary register contents. -/
def IsReset {P : Params} (s : State P) : Prop := ∃ s₀, s = reset s₀

theorem isReset_zero (P : Params) : IsReset (State.zero P) := ⟨State.zero P, rfl⟩

/-- The states of all runs from reset, whatever the inputs are. -/
def Reachable {P : Params} (s : State P) : Prop := (bridge P).Reachable IsReset s

theorem reachable_zero (P : Params) : Reachable (State.zero P) := ⟨_, [], isReset_zero P, by simp, rfl⟩

end AxiApb.Simple
