import AxiApb.Simple

/-!
# What the single-beat bridge is for

The bridge collects the two halves of a write, in either order, and passes them on as one APB write; a read goes
straight to the APB.  Requests for more than one beat or for another width are answered `DECERR`, a write of this kind
as soon as a W beat is there.  The machine `engine` says this without registers: its state holds the halves that were
accepted, the transfer or the answer.
-/

namespace AxiApb

open Clocked

variable {P : Params}

/-- A single full-width beat. -/
def Req.Single (q : Req P) : Prop := q.len = 0#8 ∧ q.size = P.expectedAxsize

instance (q : Req P) : Decidable q.Single := inferInstanceAs (Decidable (_ ∧ _))

namespace Simple

/-- The control of the APB transfer of a request: `PADDR` is the address itself. -/
def writeCtrl (q : Req P) (w : WBeat P) : Ctrl P := ⟨q.addr, q.prot, true, some (w.wdata, w.wstrb)⟩
def readCtrl (q : Req P) : Ctrl P := ⟨q.addr, q.prot, false, none⟩

/-- `aw` and `w` are the accepted halves of a write that is not complete; `b` and `r` the answer on offer. -/
inductive Phase (P : Params)
  | idle (aw : Option (Req P)) (w : Option (WBeat P))
  | err (q : Req P) (w : Option (WBeat P))
  | wapb (q : Req P) (w : WBeat P) (enable : Bool)
  | wresp (b : Option (BBeat P))
  | rapb (q : Req P) (enable : Bool)
  | rresp (r : Option (RBeat P))

namespace Phase

/-- The W half after a cycle in the idle phase. -/
def takeW (w : Option (WBeat P)) (i : In P) : Option (WBeat P) :=
  if w.isNone && (i.wvalid && !i.arvalid) then some i.wBeat else w

def startWrite (q : Req P) (w : Option (WBeat P)) : Phase P := if q.Single then idle (some q) w else err q w

def startRead (q : Req P) : Phase P :=
  if q.Single then rapb q false else rresp (some ⟨q.id, 0, respDecerr, true⟩)

def idleStep (w : Option (WBeat P)) (i : In P) : Phase P :=
  if i.awvalid && !i.arvalid then startWrite i.awReq (takeW w i)
  else if w.isNone && (i.arvalid && !i.awvalid && !i.wvalid) then startRead i.arReq
  else idle none (takeW w i)

def step : Phase P → In P → Phase P
  | idle (some q) (some w), _ => wapb q w false
  | idle (some q) none, i => idle (some q) (takeW none i)
  | idle none w, i => idleStep w i
  | err q (some _), _ => wresp (some ⟨q.id, respDecerr⟩)
  | err q none, _ => err q none
  | wapb q w false, _ => wapb q w true
  | wapb q w true, i =>
    if i.pready q.port then wresp (some ⟨q.id, if i.pslverr q.port then respSlverr else respOkay⟩) else wapb q w true
  | wresp (some b), i => if i.bready then wresp none else wresp (some b)
  | wresp none, _ => idle none none
  | rapb q false, _ => rapb q true
  | rapb q true, i =>
    if i.pready q.port then
      rresp (some ⟨q.id, i.prdata q.port, if i.pslverr q.port then respSlverr else respOkay, true⟩)
    else rapb q true
  | rresp (some r), i => if i.rready then rresp none else rresp (some r)
  | rresp none, _ => idle none none

/-- An AW is held, and a W beat is. -/
def awHeld : Phase P → Bool
  | idle aw _ => aw.isSome
  | err .. => true
  | _ => false

def wHeld : Phase P → Bool
  | idle _ w => w.isSome
  | err _ w => w.isSome
  | _ => false

def isIdle : Phase P → Bool
  | idle .. => true
  | _ => false

def b : Phase P → Option (BBeat P)
  | wresp b => b
  | _ => none

def r : Phase P → Option (RBeat P)
  | rresp r => r
  | _ => none

/-- What port `x` shows. -/
def apb : Phase P → Bool → PortView P
  | wapb q w en, x => if x = q.port then ⟨true, en, some (writeCtrl q w)⟩ else .quiet
  | rapb q en, x => if x = q.port then ⟨true, en, some (readCtrl q)⟩ else .quiet
  | _, _ => .quiet

def out (ph : Phase P) (i : In P) : Out P :=
  { awready := ph.isIdle && (!ph.awHeld && !i.arvalid)
    wready := ph.isIdle && (!ph.wHeld && !i.arvalid)
    arready := ph.isIdle && (!ph.awHeld && !ph.wHeld && !i.awvalid && !i.wvalid)
    b := ph.b
    r := ph.r
    apb0 := ph.apb false
    apb1 := ph.apb true }

/-- Only single beats go to the APB, and only other requests are rejected. -/
def Ok : Phase P → Prop
  | idle aw _ => ∀ q ∈ aw, q.Single
  | err q _ => ¬ q.Single
  | wapb q _ _ => q.Single
  | rapb q _ => q.Single
  | _ => True

end Phase

/-- The transaction machine. -/
def engine (P : Params) : Machine (In P) (Out P) (Phase P) := ⟨Phase.step, Phase.out⟩

end Simple

end AxiApb
