import AxiApb.ScoreboardContract

/-!
# The monitors of the bridge

`bridge_axi_monitor` runs one process for each channel: AW descriptors and W bursts wait in queues until the B handshake,
R beats are collected from the AR handshake on.  The W process ends a burst with `WLAST` or, when a burst has none, with
the first `BVALID` that it sees.  In which order processes wake at one edge is left to the simulator (`Race`).
`bridge_apb_monitor` reports each completed transfer.

The transactions of a run are what the handshakes say (`history`).
-/

namespace AxiApb

namespace Monitors

open Clocked Scoreboard

section
variable {P : Params}

/-! ### What is sampled -/

/-- The outputs of the bridge, with the lines that the monitors read while they are not qualified. -/
structure Wires (P : Params) where
  out : Out P
  bresp : BitVec 2
  port : Bool → Port P

abbrev Sample (P : Params) := In P × Wires P

/-- The qualified view of a sample. -/
def Sample.cycle (v : Sample P) : Cycle P := (v.1, v.2.out)

/-- `pack_dw` and `pb_pack` -/
def packDw (din : Data P) : BitVec 64 := din.setWidth 64

/-- `pack_strb` and `pb_strb_pack` -/
def packStrb (sin : Strb P) : BitVec 8 := sin.setWidth 8

/-- The order of the processes that wake at one edge: `armSees` if `bvalid_arm` looks at the burst after `wbeat_arm` has
pushed its beat, `beatLost` if `disable fork` comes before that push, `bSeesAw` and `bSeesWd` if `wr_b_capture` looks at
the queues after the other processes have pushed. -/
structure Race where
  armSees : Bool
  beatLost : Bool
  bSeesAw : Bool
  bSeesWd : Bool

/-! ### The AXI monitor -/

/-- A new `bridge_axi_wr_tr`. -/
def newWr : AxiWrTr := ⟨0, 0, 0, 0, 0, [], []⟩

/-- `aw_pend`, `wd_pend`; the burst `d` of `wr_w_capture`; whether `wr_b_capture` waits in its loop; `tr` and `bx` of
`rd_loop` once a request is seen. -/
structure AxiMon where
  awPend : List AxiWrTr
  wdPend : List AxiWrTr
  d : AxiWrTr
  waiting : Bool
  rd : Option (AxiRdTr × Nat)

/-- The monitor when its processes start. -/
def AxiMon.new : AxiMon := ⟨[], [], newWr, false, none⟩

def awDesc (q : Req P) : AxiWrTr :=
  { newWr with addr := q.addr.setWidth 64, awlen := q.len, awsize := q.size, awburst := q.burst }

/-- What `wr_aw_capture` pushes at an edge. -/
def wrAwCapture (c : Cycle P) : List AxiWrTr := (awAccepted c).map awDesc

def pushBeat (d : AxiWrTr) (w : WBeat P) : AxiWrTr :=
  { d with wdata := d.wdata ++ [packDw w.wdata], wstrb := d.wstrb ++ [packStrb w.wstrb] }

/-- The fork of `wr_w_capture` at an edge: the burst, and whether one of the arms has ended. -/
def wrWCapture (ρ : Race) (d : AxiWrTr) (c : Cycle P) : AxiWrTr × Bool :=
  let d' := (wTaken c).foldl pushBeat d
  let bvalidArm := c.2.b.isSome && decide (0 < (if ρ.armSees then d' else d).wdata.length)
  if bvalidArm && ρ.beatLost && decide (0 < d.wdata.length) then (d, true)
  else (d', bvalidArm || (wTaken c).any (·.wlast))

/-- `wr_b_capture` at an edge at which `aws` and `wds` are pushed. -/
def wrBCapture (ρ : Race) (m : AxiMon) (aws wds : List AxiWrTr) (v : Sample P) : AxiMon × List Call :=
  let m' := { m with awPend := m.awPend ++ aws, wdPend := m.wdPend ++ wds }
  if m.waiting || !(bTaken v.cycle).isEmpty then
    match (if ρ.bSeesAw then m'.awPend else m.awPend), (if ρ.bSeesWd then m'.wdPend else m.wdPend) with
    | awd :: _, wdd :: _ =>
      ({ m' with awPend := m'.awPend.tail, wdPend := m'.wdPend.tail, waiting := false },
        [.axiWr { awd with wdata := wdd.wdata, wstrb := wdd.wstrb, bresp := v.2.bresp }])
    | _, _ => ({ m' with waiting := true }, [])
  else (m', [])

/-- `rd_loop` at an edge. -/
def rdLoop (rd : Option (AxiRdTr × Nat)) (c : Cycle P) : Option (AxiRdTr × Nat) × List Call :=
  match rd with
  | none => ((arAccepted c).head?.map fun q => (⟨q.addr.setWidth 64, q.len, q.size, q.burst, 0, []⟩, 0), [])
  | some (tr, bx) =>
    match rTaken c with
    | [] => (some (tr, bx), [])
    | r :: _ =>
      let tr := { tr with
        rdata := tr.rdata ++ [packDw r.rdata]
        rresp := if r.rlast then r.rresp else tr.rresp }
      (if bx = tr.arlen.toNat then none else some (tr, bx + 1), if r.rlast then [.axiRd tr] else [])

/-- The monitor at an edge, and the transactions that it delivers. -/
def AxiMon.step (ρ : Race) (m : AxiMon) (v : Sample P) : AxiMon × List Call :=
  let w := wrWCapture ρ m.d v.cycle
  let b := wrBCapture ρ m (wrAwCapture v.cycle) (if w.2 then [w.1] else []) v
  let r := rdLoop m.rd v.cycle
  ({ b.1 with d := if w.2 then newWr else w.1, rd := r.1 }, b.2 ++ r.2)

/-! ### The APB monitors -/

/-- The transfer that the monitor of port `x` reports at an edge. -/
def apbEvent (x : Bool) (v : Sample P) : List ApbTr :=
  let p := v.2.port x
  if p.psel && p.penable && v.1.pready x then
    [⟨portIx x, p.paddr.setWidth 64, p.pwrite, packDw p.pwdata, packStrb p.pstrb, packDw (v.1.prdata x), v.1.pslverr x⟩]
  else []

def apbCalls (v : Sample P) : List Call :=
  (apbEvent false v).map (.apb false) ++ (apbEvent true v).map (.apb true)

/-- The bridge with the lines that the monitors read. -/
def wires (s : Burst.State P) (i : In P) : Wires P := ⟨Burst.out s i, s.bresp, s.port⟩

/-- The bridge with its monitors; an output is what is sampled, and what is delivered. -/
def monitored (P : Params) : Machine (In P × Race) (Wires P × List Call) (Burst.State P × AxiMon) where
  step s i := (Burst.posedge s.1 i.1, (s.2.step i.2 (i.1, wires s.1 i.1)).1)
  out s i := (wires s.1 i.1, apbCalls (i.1, wires s.1 i.1) ++ (s.2.step i.2 (i.1, wires s.1 i.1)).2)

/-- What is delivered in the cycles of a trace. -/
def delivered (tr : List ((In P × Race) × (Wires P × List Call))) : List Call := tr.flatMap (·.2.2)

/-- What is sampled in a cycle. -/
def sampled (c : (In P × Race) × (Wires P × List Call)) : Sample P := (c.1.1, c.2.1)

end

/-! ### The transactions of a run -/

section
variable {idWidth : Nat}

/-- A transaction whose last beat or response is still to come. -/
inductive Started (idWidth : Nat)
  | write (q : Req (contract idWidth)) (ws : List (WBeat (contract idWidth))) (obss : List ApbTr)
  | read (q : Req (contract idWidth)) (rs : List (RBeat (contract idWidth))) (obss : List ApbTr)

def Started.transfers : Started idWidth → List ApbTr
  | write _ _ obss | read _ _ obss => obss

def Started.port : Started idWidth → Bool
  | write q _ _ | read q _ _ => q.port

/-- The transactions that are over, in order, and the one that is served. -/
structure History (idWidth : Nat) where
  done : List (Txn idWidth)
  current : Option (Started idWidth)

namespace History

def empty : History idWidth := ⟨[], none⟩

/-- A write is over with its response, a read with its last beat. -/
def note (h : History idWidth) (v : Sample (contract idWidth)) : History idWidth :=
  let obss' := apbEvent false v ++ apbEvent true v
  match h.current with
  | none =>
    { h with current :=
        if awTaken v.cycle then some (.write v.1.awReq [] [])
        else if arTaken v.cycle then some (.read v.1.arReq [] [])
        else none }
  | some (.write q ws obss) =>
    match bTaken v.cycle with
    | [] => { h with current := some (.write q (ws ++ wTaken v.cycle) (obss ++ obss')) }
    | b :: _ => ⟨h.done ++ [.write q (ws ++ wTaken v.cycle) b (obss ++ obss')], none⟩
  | some (.read q rs obss) =>
    if (rTaken v.cycle).any (·.rlast) then ⟨h.done ++ [.read q (rs ++ rTaken v.cycle) (obss ++ obss')], none⟩
    else { h with current := some (.read q (rs ++ rTaken v.cycle) (obss ++ obss')) }

/-- The reports of all transactions, each after its transfers. -/
def calls (h : History idWidth) : List Call :=
  h.done.flatMap Txn.calls ++ h.current.toList.flatMap fun t => t.transfers.map (.apb t.port)

/-- All transfers, in order. -/
def transfers (h : History idWidth) : List ApbTr :=
  h.done.flatMap Txn.transfers ++ h.current.toList.flatMap Started.transfers

end History

def history (tr : List (Sample (contract idWidth))) : History idWidth := tr.foldl History.note .empty

theorem history_concat (tr : List (Sample (contract idWidth))) (v : Sample (contract idWidth)) :
    history (tr ++ [v]) = (history tr).note v := by
  rw [history, List.foldl_append]
  rfl

end

/-! ### The lines of the APB ports -/

section
variable {P : Params} {s : Burst.State P} {ph : Burst.Phase P} {i : In P}

theorem cycle_wires (hr : Burst.Rel s ph) (i : In P) : Sample.cycle (i, wires s i) = (i, ph.out i) := by
  rw [Sample.cycle, wires, Burst.out_rel hr]

/-- The lines of a selected port are those of its transfer. -/
theorem port_of_view {p : Port P} {en : Bool} {k : Ctrl P} (h : p.view = ⟨true, en, some k⟩) :
    p.psel = true ∧ p.penable = en ∧ p.ctrl = k := by
  rw [Port.view, PortView.mk.injEq] at h
  obtain ⟨hsel, hen, hctrl⟩ := h
  rw [hsel, if_pos rfl, Option.some.injEq] at hctrl
  exact ⟨hsel, hen, hctrl⟩

theorem apbEvent_quiet {x : Bool} (hr : Burst.Rel s ph) (hx : ph.apb x = .quiet) :
    apbEvent x (i, wires s i) = [] := by
  have hsel : (s.port x).psel = false := by
    have := hr.apb x
    rw [hx, Port.view, PortView.quiet, PortView.mk.injEq] at this
    exact this.1
  rw [apbEvent, wires, hsel]
  rfl

/-- The ports are quiet. -/
theorem events_quiet (hr : Burst.Rel s ph) (h : ∀ x, ph.apb x = .quiet) :
    apbEvent false (i, wires s i) ++ apbEvent true (i, wires s i) = [] ∧ apbCalls (i, wires s i) = [] := by
  rw [apbCalls, apbEvent_quiet hr (h false), apbEvent_quiet hr (h true)]
  exact ⟨rfl, rfl⟩

/-- The report of a transfer with the control `k`. -/
def Reports (k : Ctrl P) (x : Bool) (i : In P) (obs : ApbTr) : Prop :=
  obs.port = portIx x ∧ obs.paddr = k.paddr.setWidth 64 ∧ obs.pwrite = k.pwrite ∧
    (∀ w ∈ k.payload, obs.pwdata = packDw w.1 ∧ obs.pstrb = packStrb w.2) ∧ obs.prdata = packDw (i.prdata x) ∧
      obs.pslverr = i.pslverr x

/-- Port `y` is driven: a completed transfer is reported, and nothing else. -/
theorem events_drive {y en : Bool} {k : Ctrl P} (hr : Burst.Rel s ph)
    (h : ∀ x, ph.apb x = if x = y then ⟨true, en, some k⟩ else .quiet) :
    ∃ obss, apbEvent false (i, wires s i) ++ apbEvent true (i, wires s i) = obss ∧
      apbCalls (i, wires s i) = obss.map (.apb y) ∧
        if en && i.pready y then ∃ obs, obss = [obs] ∧ Reports k y i obs else obss = [] := by
  have hother : apbEvent (!y) (i, wires s i) = [] := apbEvent_quiet hr (by rw [h, if_neg (by simp)])
  obtain ⟨hsel, hen, hctrl⟩ := port_of_view ((hr.apb y).trans (by rw [h, if_pos rfl]))
  refine ⟨apbEvent y (i, wires s i), ?_, ?_, ?_⟩
  · cases y with
    | false => rw [show apbEvent true _ = [] from hother, List.append_nil]
    | true => rw [show apbEvent false _ = [] from hother, List.nil_append]
  · rw [apbCalls]
    cases y with
    | false => rw [show apbEvent true _ = [] from hother, List.map_nil, List.append_nil]
    | true => rw [show apbEvent false _ = [] from hother, List.map_nil, List.nil_append]
  · have hevent : apbEvent y (i, wires s i) = if en && i.pready y then
        [⟨portIx y, (s.port y).paddr.setWidth 64, (s.port y).pwrite, packDw (s.port y).pwdata, packStrb (s.port y).pstrb,
          packDw (i.prdata y), i.pslverr y⟩] else [] := by
      rw [apbEvent, wires]
      simp only [hsel, hen, Bool.true_and]
    rw [hevent]
    split
    · refine ⟨_, rfl, rfl, ?_, ?_, ?_, rfl, rfl⟩
      · rw [← hctrl]; rfl
      · rw [← hctrl]; rfl
      · intro w hw
        rw [← hctrl, Port.ctrl] at hw
        cases hwrite : (s.port y).pwrite with
        | true =>
          rw [hwrite] at hw
          cases hw
          exact ⟨rfl, rfl⟩
        | false =>
          rw [hwrite] at hw
          cases hw
    · rfl

end

/-! ### One edge of the AXI monitor -/

section
variable {P : Params} {ρ : Race} {m : AxiMon} {c : Cycle P} {v : Sample P} {d : AxiWrTr}

theorem wrWCapture_none (hw : wTaken c = []) (hb : c.2.b = none) : wrWCapture ρ d c = (d, false) := by
  simp [wrWCapture, hw, hb]

theorem wrWCapture_beat {w : WBeat P} (hw : wTaken c = [w]) (hb : c.2.b = none) :
    wrWCapture ρ d c = (pushBeat d w, w.wlast) := by
  simp [wrWCapture, hw, hb]

/-- `BVALID` ends a burst that has a beat. -/
theorem wrWCapture_bvalid {b : BBeat P} (hw : wTaken c = []) (hb : c.2.b = some b) :
    wrWCapture ρ d c = (d, decide (0 < d.wdata.length)) := by
  simp only [wrWCapture, hw, hb, List.foldl_nil, Option.isSome_some, Bool.true_and, List.any_nil, Bool.or_false, ite_self]
  cases hd : decide (0 < d.wdata.length) <;> cases ρ.beatLost <;> rfl

theorem wrBCapture_pass {aws wds : List AxiWrTr} (hm : m.waiting = false) (hb : bTaken v.cycle = []) :
    wrBCapture ρ m aws wds v = ({ m with awPend := m.awPend ++ aws, wdPend := m.wdPend ++ wds }, []) := by
  rw [wrBCapture, hm, hb]
  rfl

/-- Both queues hold a descriptor before the edge: no race matters. -/
theorem wrBCapture_pop {aws wds aws' wds' : List AxiWrTr} {awd wdd : AxiWrTr}
    (h : m.waiting = true ∨ bTaken v.cycle ≠ []) (haw : m.awPend = awd :: aws') (hwd : m.wdPend = wdd :: wds') :
    wrBCapture ρ m aws wds v = ({ m with awPend := aws' ++ aws, wdPend := wds' ++ wds, waiting := false },
      [.axiWr { awd with wdata := wdd.wdata, wstrb := wdd.wstrb, bresp := v.2.bresp }]) := by
  have hgo : (m.waiting || !(bTaken v.cycle).isEmpty) = true := by
    rcases h with h | h
    · simp [h]
    · simp [h]
  rw [wrBCapture, hgo, haw, hwd]
  cases ρ.bSeesAw <;> cases ρ.bSeesWd <;> rfl

/-- The W burst ends at the edge of the B handshake: the simulator decides whether the report waits for the next edge. -/
theorem wrBCapture_race {awd wdd : AxiWrTr} (hb : bTaken v.cycle ≠ []) (haw : m.awPend = [awd]) (hwd : m.wdPend = []) :
    wrBCapture ρ m [] [wdd] v = if ρ.bSeesWd then
      ({ m with awPend := [], wdPend := [], waiting := false },
        [.axiWr { awd with wdata := wdd.wdata, wstrb := wdd.wstrb, bresp := v.2.bresp }])
    else ({ m with wdPend := [wdd], waiting := true }, []) := by
  have hgo : (m.waiting || !(bTaken v.cycle).isEmpty) = true := by simp [hb]
  rw [wrBCapture, hgo, haw, hwd]
  cases ρ.bSeesAw <;> cases ρ.bSeesWd <;> simp

theorem rdLoop_pass {rd : Option (AxiRdTr × Nat)} (hr : rTaken c = []) (har : arAccepted c = []) :
    rdLoop rd c = (rd, []) := by
  cases rd with
  | none => simp [rdLoop, har]
  | some t => simp [rdLoop, hr]

/-- Nothing happens on the AXI channels. -/
theorem step_quiet (hm : m.waiting = false) (haw : awAccepted v.cycle = []) (har : arAccepted v.cycle = [])
    (hw : wTaken v.cycle = []) (hb : v.cycle.2.b = none) (hr : rTaken v.cycle = []) : m.step ρ v = (m, []) := by
  rw [AxiMon.step, wrWCapture_none hw hb, wrAwCapture, haw, rdLoop_pass hr har]
  simp only [List.map_nil, Bool.false_eq_true, if_false]
  rw [wrBCapture_pass hm (bTaken_none hb), List.append_nil, List.append_nil, List.append_nil]

end

end Monitors

end AxiApb
