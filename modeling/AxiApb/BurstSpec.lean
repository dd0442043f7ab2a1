import AxiApb.Burst

/-!
# What the burst bridge is for

The bridge serves one request at a time.  A legal write passes each accepted W beat on as one APB write and answers
once; a legal read makes one APB read for each beat and returns what it got; an illegal request touches no APB port,
is drained (write) or padded (read), and is answered `DECERR`.  The machine `engine` says just this.  Its state
`Phase` holds the request being served and what has happened to it so far (the accepted beats, what the slave
answered), no counter, no flag and no register of an earlier request.
-/

namespace AxiApb

open Clocked

variable {P : Params}

/-! ### Requests -/

namespace Req

/-- The address of beat `n`. -/
def beatAddr (q : Req P) (n : Nat) : Addr P :=
  if q.burst = burstIncr then q.addr + BitVec.ofNat _ (n * 2 ^ q.size.toNat) else q.addr

/-- Full-width beats, `FIXED` or `INCR`, first and last beat in the same window. -/
def Legal (q : Req P) : Prop :=
  q.size = P.expectedAxsize ∧ (q.burst = burstFixed ∨ q.burst = burstIncr) ∧
    (q.beatAddr q.len.toNat).getLsbD P.apbAddrBit = q.port

instance (q : Req P) : Decidable q.Legal := inferInstanceAs (Decidable (_ ∧ _ ∧ _))

/-- The control of the APB write for beat `n`, and of the APB read. -/
def writeCtrl (q : Req P) (n : Nat) (w : WBeat P) : Ctrl P :=
  ⟨q.beatAddr n, q.prot, true, some (w.wdata, w.wstrb)⟩

def readCtrl (q : Req P) (n : Nat) : Ctrl P := ⟨q.beatAddr n, q.prot, false, none⟩

/-- The write-data phase is over: a `WLAST` was accepted, or all beats were. -/
def wEnded (q : Req P) (ws : List (WBeat P)) : Bool := ws.any (·.wlast) || decide (q.beats ≤ ws.length)

/-- Some accepted beat carries `WLAST` too early, or beat `AWLEN` lacks it. -/
def malformed (q : Req P) (ws : List (WBeat P)) : Bool :=
  ws.zipIdx.any fun wn => wn.1.wlast != (wn.2 == q.len.toNat)

/-- The response to a write with accepted beats `ws` whose transfers had the errors `es`. -/
def bBeat (q : Req P) (ws : List (WBeat P)) (es : List Bool) : BBeat P :=
  ⟨q.id, if q.Legal then (if es.contains true || malformed q ws then respSlverr else respOkay) else respDecerr⟩

end Req

/-- What the slave gave at the completing edge of an APB read. -/
structure ReadDone (P : Params) where
  prdata : Data P
  pslverr : Bool

/-- The R beat `n` of a legal read, and of an illegal one. -/
def Req.rBeat (q : Req P) (n : Nat) (d : ReadDone P) : RBeat P :=
  ⟨q.id, d.prdata, if d.pslverr then respSlverr else respOkay, n == q.len.toNat⟩

def Req.errBeat (q : Req P) (n : Nat) : RBeat P := ⟨q.id, 0, respDecerr, n == q.len.toNat⟩

/-! ### The machine -/

namespace Burst

/-- `ws` and `es` are the accepted W beats and the `PSLVERR`s of their completed transfers, `ds` the completed reads
whose R beats have been accepted; `w` is the beat being transferred, `d` the read being returned. -/
inductive Phase (P : Params)
  | idle
  | wdata (q : Req P) (ws : List (WBeat P)) (es : List Bool)
  | wapb (q : Req P) (ws : List (WBeat P)) (w : WBeat P) (es : List Bool) (enable : Bool)
  | wresp (q : Req P) (ws : List (WBeat P)) (es : List Bool) (valid : Bool)
  | rfetch (q : Req P) (ds : List (ReadDone P))
  | rapb (q : Req P) (ds : List (ReadDone P)) (enable : Bool)
  | rbuf (q : Req P) (ds : List (ReadDone P)) (d : ReadDone P) (valid : Bool)
  | rerr (q : Req P) (n : Nat) (valid : Bool)

namespace Phase

def startRead (q : Req P) : Phase P := if q.Legal then rfetch q [] else rerr q 0 false

/-- The W beat `w` is accepted after `ws`. -/
def takeW (q : Req P) (ws : List (WBeat P)) (es : List Bool) (w : WBeat P) : Phase P :=
  if q.Legal then wapb q ws w es false
  else if q.wEnded (ws ++ [w]) then wresp q (ws ++ [w]) es false
  else wdata q (ws ++ [w]) es

/-- The transfer of the last beat of `ws` completes. -/
def wDone (q : Req P) (ws : List (WBeat P)) (es : List Bool) : Phase P :=
  if q.wEnded ws then wresp q ws es false else wdata q ws es

def step : Phase P → In P → Phase P
  | idle, i =>
    if i.awvalid && !i.arvalid then wdata i.awReq [] []
    else if i.arvalid && !i.awvalid then startRead i.arReq
    else idle
  | wdata q ws es, i => if i.wvalid then takeW q ws es i.wBeat else wdata q ws es
  | wapb q ws w es false, _ => wapb q ws w es true
  | wapb q ws w es true, i =>
    if i.pready q.port then wDone q (ws ++ [w]) (es ++ [i.pslverr q.port]) else wapb q ws w es true
  | wresp q ws es false, _ => wresp q ws es true
  | wresp q ws es true, i => if i.bready then idle else wresp q ws es true
  | rfetch q ds, _ => rapb q ds false
  | rapb q ds false, _ => rapb q ds true
  | rapb q ds true, i =>
    if i.pready q.port then rbuf q ds ⟨i.prdata q.port, i.pslverr q.port⟩ false else rapb q ds true
  | rbuf q ds d false, _ => rbuf q ds d true
  | rbuf q ds d true, i =>
    if i.rready then (if ds.length == q.len.toNat then idle else rfetch q (ds ++ [d])) else rbuf q ds d true
  | rerr q n false, _ => rerr q n true
  | rerr q n true, i =>
    if i.rready then (if n == q.len.toNat then idle else rerr q (n + 1) false) else rerr q n true

def isIdle : Phase P → Bool
  | idle => true
  | _ => false

def wready : Phase P → Bool
  | wdata .. => true
  | _ => false

def b : Phase P → Option (BBeat P)
  | wresp q ws es true => some (q.bBeat ws es)
  | _ => none

def r : Phase P → Option (RBeat P)
  | rbuf q ds d true => some (q.rBeat ds.length d)
  | rerr q n true => some (q.errBeat n)
  | _ => none

/-- What port `x` shows. -/
def apb : Phase P → Bool → PortView P
  | wapb q ws w _ en, x => if x = q.port then ⟨true, en, some (q.writeCtrl ws.length w)⟩ else .quiet
  | rapb q ds en, x => if x = q.port then ⟨true, en, some (q.readCtrl ds.length)⟩ else .quiet
  | _, _ => .quiet

def out (ph : Phase P) (i : In P) : Out P :=
  { awready := ph.isIdle && !i.arvalid
    wready := ph.wready
    arready := ph.isIdle && !i.awvalid
    b := ph.b
    r := ph.r
    apb0 := ph.apb false
    apb1 := ph.apb true }

/-! ### Well-formed phases -/

/-- The counts fit together: a beat is awaited only while the burst is not over, each accepted beat of a legal write
has had its transfer, and a read never goes past its last beat. -/
def Ok : Phase P → Prop
  | idle => True
  | wdata q ws es => q.wEnded ws = false ∧ es.length = (if q.Legal then ws.length else 0)
  | wapb q ws _ es _ => q.Legal ∧ q.wEnded ws = false ∧ es.length = ws.length
  | wresp q ws es _ =>
    (∃ ws' w, ws = ws' ++ [w] ∧ q.wEnded ws' = false) ∧ q.wEnded ws = true ∧
      es.length = (if q.Legal then ws.length else 0)
  | rfetch q ds => q.Legal ∧ ds.length ≤ q.len.toNat
  | rapb q ds _ => q.Legal ∧ ds.length ≤ q.len.toNat
  | rbuf q ds _ _ => q.Legal ∧ ds.length ≤ q.len.toNat
  | rerr q n _ => ¬ q.Legal ∧ n ≤ q.len.toNat

end Phase

/-- The transaction machine. -/
def engine (P : Params) : Machine (In P) (Out P) (Phase P) := ⟨Phase.step, Phase.out⟩

end Burst

end AxiApb
