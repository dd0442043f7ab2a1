import AxiApb.RegBlock

/-!
# What the register block is for

A store of 32 words with one write and one read in progress.  A write latches its AW, takes one W beat and answers
it; it is stored if the address is in range and `WID` is the latched `AWID`.  A read takes its word at the AR
handshake.  The machine `engine` says this without registers other than the store; the register block refines it
(`block_simulation`).
-/

namespace AxiApb.RegBlock

open Clocked

variable {P : Params}

/-- The write `q` with the beat `w` is stored. -/
def Req.Accepts (q : Req P) (w : WBeat P) : Prop := inRange q.addr = true ∧ w.wid = q.id

instance (q : Req P) (w : WBeat P) : Decidable (q.Accepts w) := inferInstanceAs (Decidable (_ ∧ _))

/-- The B beat of a write, and the R beat of a read that finds the registers `m`. -/
def Req.bBeat (q : Req P) (w : WBeat P) : BBeat P := ⟨q.id, if q.Accepts w then respOkay else respSlverr⟩

def Req.rBeat (q : Req P) (m : RegFile) : RBeat P :=
  if inRange q.addr then ⟨q.id, m (regIndex q.addr), respOkay⟩ else ⟨q.id, 0, respSlverr⟩

/-- What the write `q` with the beat `w` makes of the registers. -/
def Req.store (q : Req P) (w : WBeat P) (m : RegFile) : RegFile :=
  if q.Accepts w then storeBytes m (regIndex q.addr) w.wdata w.wstrb else m

/-! ### The machine -/

/-- `ready` is the `READY` of the address channel, which comes one cycle after the state. -/
inductive WrPhase (P : Params)
  | idle (ready : Bool)
  | await (q : Req P)
  | resp (b : BBeat P)

inductive RdPhase (P : Params)
  | idle (ready : Bool)
  | resp (r : RBeat P)

structure Phase (P : Params) where
  mem : RegFile
  wr : WrPhase P
  rd : RdPhase P

def WrPhase.step : WrPhase P → In P → WrPhase P
  | idle ready, i => if i.awvalid && ready then await i.awReq else idle true
  | await q, i => if i.wvalid then resp (q.bBeat i.wBeat) else await q
  | resp b, i => if i.bready then idle false else resp b

def WrPhase.store : WrPhase P → In P → RegFile → RegFile
  | await q, i, m => if i.wvalid then q.store i.wBeat m else m
  | _, _, m => m

def RdPhase.step (m : RegFile) : RdPhase P → In P → RdPhase P
  | idle ready, i => if i.arvalid && ready then resp (i.arReq.rBeat m) else idle true
  | resp r, i => if i.rready then idle false else resp r

def Phase.step (ph : Phase P) (i : In P) : Phase P := ⟨ph.wr.store i ph.mem, ph.wr.step i, ph.rd.step ph.mem i⟩

def WrPhase.awready : WrPhase P → Bool
  | idle ready => ready
  | _ => false

def WrPhase.wready : WrPhase P → Bool
  | await _ => true
  | _ => false

def WrPhase.b : WrPhase P → Option (BBeat P)
  | resp b => some b
  | _ => none

def RdPhase.arready : RdPhase P → Bool
  | idle ready => ready
  | _ => false

def RdPhase.r : RdPhase P → Option (RBeat P)
  | resp r => some r
  | _ => none

def Phase.out (ph : Phase P) (_ : In P) : Out P :=
  ⟨ph.wr.awready, ph.wr.wready, ph.wr.b, ph.rd.arready, ph.rd.r⟩

/-- After a reset. -/
def Phase.initial (P : Params) : Phase P := ⟨fun _ => 0, .idle false, .idle false⟩

def engine (P : Params) : Machine (In P) (Out P) (Phase P) := ⟨Phase.step, Phase.out⟩

/-! ### What the registers hold -/

def WrRel (s : WrRegs P) : WrPhase P → Prop
  | .idle ready => s.wrState = .idle ∧ s.awready = ready ∧ s.wready = false ∧ s.bvalid = false
  | .await q =>
    s.wrState = .haveAw ∧ s.awready = false ∧ s.wready = true ∧ s.bvalid = false ∧ s.wrId = q.id ∧
      s.wrIdx = regIndex q.addr ∧ s.wrRange = inRange q.addr
  | .resp b =>
    s.wrState = .resp ∧ s.awready = false ∧ s.wready = false ∧ s.bvalid = true ∧ s.bid = b.bid ∧ s.bresp = b.bresp

def RdRel (s : RdRegs P) : RdPhase P → Prop
  | .idle ready => s.rdState = .idle ∧ s.arready = ready ∧ s.rvalid = false
  | .resp r =>
    s.rdState = .resp ∧ s.arready = false ∧ s.rvalid = true ∧ s.rid = r.rid ∧ s.rdata = r.rdata ∧ s.rresp = r.rresp

structure Rel (s : State P) (ph : Phase P) : Prop where
  mem : s.regfile = ph.mem
  wr : WrRel s.toWrRegs ph.wr
  rd : RdRel s.toRdRegs ph.rd

section
variable {s : State P} {ph : Phase P}

/-- Related registers show the same outputs. -/
theorem out_rel (h : Rel s ph) (i : In P) : out s i = ph.out i := by
  have hw : s.awready = ph.wr.awready ∧ s.wready = ph.wr.wready ∧
      (if s.bvalid then some ⟨s.bid, s.bresp⟩ else none) = ph.wr.b := by
    have hwr := h.wr
    cases hp : ph.wr with
    | idle ready =>
      rw [hp] at hwr
      obtain ⟨-, haw, hw, hb⟩ := hwr
      exact ⟨haw, hw, by rw [hb]; rfl⟩
    | await q =>
      rw [hp] at hwr
      obtain ⟨-, haw, hw, hb, -⟩ := hwr
      exact ⟨haw, hw, by rw [hb]; rfl⟩
    | resp b =>
      rw [hp] at hwr
      obtain ⟨-, haw, hw, hb, hid, hresp⟩ := hwr
      exact ⟨haw, hw, by rw [hb, hid, hresp]; rfl⟩
  have hr : s.arready = ph.rd.arready ∧
      (if s.rvalid then some ⟨s.rid, s.rdata, s.rresp⟩ else none) = ph.rd.r := by
    have hrd := h.rd
    cases hp : ph.rd with
    | idle ready =>
      rw [hp] at hrd
      obtain ⟨-, har, hv⟩ := hrd
      exact ⟨har, by rw [hv]; rfl⟩
    | resp r =>
      rw [hp] at hrd
      obtain ⟨-, har, hv, hid, hdata, hresp⟩ := hrd
      exact ⟨har, by rw [hv, hid, hdata, hresp]; rfl⟩
  simp only [out, Phase.out, hw, hr]

private theorem wrBlock_rel (h : Rel s ph) (i : In P) :
    (wrBlock s i).regfile = ph.wr.store i ph.mem ∧ WrRel (wrBlock s i) (ph.wr.step i) := by
  have hwr := h.wr
  have hmem := h.mem
  unfold wrBlock
  cases hp : ph.wr with
  | idle ready =>
    rw [hp] at hwr
    obtain ⟨hst, haw, hw, hb⟩ := hwr
    rw [hst]
    simp only [wrIdle, haw, WrPhase.step]
    cases i.awvalid && ready with
    | true => exact ⟨hmem, rfl, rfl, rfl, hb, rfl, rfl, rfl⟩
    | false => exact ⟨hmem, hst, rfl, rfl, hb⟩
  | await q =>
    rw [hp] at hwr
    obtain ⟨hst, haw, hw, hb, hid, hidx, hrange⟩ := hwr
    rw [hst]
    simp only [wrHaveAw, hw, Bool.and_true, hid, hidx, hrange, WrPhase.step, WrPhase.store]
    cases i.wvalid with
    | false => exact ⟨hmem, hst, haw, hw, hb, hid, hidx, hrange⟩
    | true =>
      have hacc : (!inRange q.addr || i.wid != q.id) = !decide (q.Accepts i.wBeat) := by
        show _ = !decide (inRange q.addr = true ∧ i.wid = q.id)
        rw [Bool.decide_and, Bool.not_and, Bool.decide_eq_true]
        rfl
      rw [hacc, if_pos rfl, if_pos rfl, if_pos rfl, Req.store, Req.bBeat]
      by_cases hq : q.Accepts i.wBeat
      · rw [decide_eq_true hq, if_pos hq, if_pos hq]
        exact ⟨by rw [← hmem]; rfl, rfl, haw, rfl, rfl, rfl, rfl⟩
      · rw [decide_eq_false hq, if_neg hq, if_neg hq]
        exact ⟨hmem, rfl, haw, rfl, rfl, rfl, rfl⟩
  | resp b =>
    rw [hp] at hwr
    obtain ⟨hst, haw, hw, hb, hid, hresp⟩ := hwr
    rw [hst]
    simp only [hb, Bool.true_and, WrPhase.step]
    cases i.bready with
    | true => exact ⟨hmem, rfl, haw, hw, rfl⟩
    | false => exact ⟨hmem, hst, haw, hw, hb, hid, hresp⟩

private theorem rdBlock_rel (h : Rel s ph) (i : In P) : RdRel (rdBlock s i) (ph.rd.step ph.mem i) := by
  have hrd := h.rd
  have hmem := h.mem
  unfold rdBlock
  cases hp : ph.rd with
  | idle ready =>
    rw [hp] at hrd
    obtain ⟨hst, har, hv⟩ := hrd
    rw [hst]
    simp only [har, RdPhase.step]
    cases i.arvalid && ready with
    | false => exact ⟨hst, rfl, hv⟩
    | true =>
      simp only [if_true, Req.rBeat, hmem]
      show RdRel _ (.resp (if inRange i.araddr then _ else _))
      split <;> exact ⟨rfl, rfl, rfl, rfl, rfl, rfl⟩
  | resp r =>
    rw [hp] at hrd
    obtain ⟨hst, har, hv, hid, hdata, hresp⟩ := hrd
    rw [hst]
    simp only [hv, Bool.true_and, RdPhase.step]
    cases i.rready with
    | true => exact ⟨rfl, har, rfl⟩
    | false => exact ⟨hst, har, hv, hid, hdata, hresp⟩

/-- Related registers load related registers. -/
theorem rel_posedge (h : Rel s ph) (i : In P) : Rel (posedge s i) (ph.step i) :=
  have hw := wrBlock_rel h i
  ⟨hw.1, hw.2, rdBlock_rel h i⟩

end

/-! ### Runs -/

/-- The registers simulate the machine. -/
theorem block_simulation (P : Params) : Simulation (block P) (engine P) Rel where
  out := fun i h => out_rel h i
  step := fun i h => rel_posedge h i

theorem rel_reset {s : State P} (h : IsReset s) : Rel s (.initial P) := by
  obtain ⟨s₀, rfl⟩ := h
  exact ⟨rfl, ⟨rfl, rfl, rfl, rfl⟩, rfl, rfl, rfl⟩

theorem Reachable.rel {s : State P} (h : Reachable s) : ∃ ph, Rel s ph :=
  (block_simulation P).reachable (fun _ hs => ⟨_, rel_reset hs⟩) h

theorem Reachable.run {s : State P} (h : Reachable s) (is : List (In P)) : Reachable ((block P).run s is) :=
  Machine.ReachableUnder.run h (fun _ _ => trivial)

theorem trace_eq {s : State P} {ph : Phase P} (h : Rel s ph) (is : List (In P)) :
    (block P).trace s is = (engine P).trace ph is :=
  (block_simulation P).trace_eq h is

theorem rel_run {s : State P} {ph : Phase P} (h : Rel s ph) (is : List (In P)) :
    Rel ((block P).run s is) ((engine P).run ph is) :=
  (block_simulation P).run h is

end AxiApb.RegBlock
