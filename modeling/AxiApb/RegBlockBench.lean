import AxiApb.RegBlockMonitor

/-!
# The bench of the register block

`tb_uvm_regblock`: `axi3lite_driver` plays the items of a sequencer on the ports of the register block, one after the
other, and the monitor watches.  However long the sequencer takes for an item, the driver never runs out of samples,
each item comes back with the answer of a plain store of 32 words, and the monitor reports just the items that came back,
in order (`bench_serves`).
-/

namespace AxiApb.RegBlock

open Clocked

/-! ### The driver -/

/-- `rb_kind_e` -/
inductive RbKind
  | read | write
deriving DecidableEq

/-- `axi3lite_seq_item` -/
structure SeqItem where
  kind : RbKind
  addr : BitVec 32
  data : BitVec 32
  strb : BitVec 4
  awid : BitVec 4
  wid : BitVec 4
  resp : BitVec 2
deriving DecidableEq

/-- Where `run_phase` waits: for an item and the edge after it, or in one of the loops `repeat (64)` of `drive_write` and
`drive_read`, with the samples that are left in it. -/
inductive Driver
  | getNext
  | awLoop (item : SeqItem) (left : Nat)
  | wLoop (item : SeqItem) (left : Nat)
  | bLoop (item : SeqItem) (left : Nat)
  | arLoop (item : SeqItem) (left : Nat)
  | rLoop (item : SeqItem) (left : Nat)
deriving DecidableEq

/-- The first assignments of `drive_write`, and of `drive_read`. -/
def In.startWrite (i : In monitored) (item : SeqItem) : In monitored :=
  { i with awid := item.awid, awaddr := item.addr, awvalid := true
           wid := item.wid, wdata := item.data, wstrb := item.strb, wvalid := true, bready := true }

def In.startRead (i : In monitored) (item : SeqItem) : In monitored :=
  { i with arid := item.awid, araddr := item.addr, arvalid := true, rready := true }

/-- A clock edge: the driver sees the outputs before it, and changes its own pins after it.  The third value is the item
that `item_done` gives back. -/
def Driver.edge : Driver → Option SeqItem → In monitored → Out monitored → Driver × In monitored × Option SeqItem
  | .getNext, none, i, _ => (.getNext, i, none)
  | .getNext, some item, i, _ =>
    if item.kind = .write then (.awLoop item 64, i.startWrite item, none)
    else (.arLoop item 64, i.startRead item, none)
  | .awLoop item left, _, i, o =>
    if o.awready then (.wLoop item 64, { i with awvalid := false }, none)
    else if 1 < left then (.awLoop item (left - 1), i, none)
    -- the samples are used up: the next loop begins all the same
    else (.wLoop item 64, i, none)
  | .wLoop item left, _, i, o =>
    if o.wready then (.bLoop item 64, { i with wvalid := false }, none)
    else if 1 < left then (.wLoop item (left - 1), i, none)
    else (.bLoop item 64, i, none)
  | .bLoop item left, _, i, o =>
    match o.b with
    | some b => (.getNext, { i with bready := false }, some { item with resp := b.bresp })
    | none => if 1 < left then (.bLoop item (left - 1), i, none) else (.getNext, i, some item)
  | .arLoop item left, _, i, o =>
    if o.arready then (.rLoop item 64, { i with arvalid := false }, none)
    else if 1 < left then (.arLoop item (left - 1), i, none)
    else (.rLoop item 64, i, none)
  | .rLoop item left, _, i, o =>
    match o.r with
    | some r => (.getNext, { i with rready := false }, some { item with data := r.rdata, resp := r.rresp })
    | none => if 1 < left then (.rLoop item (left - 1), i, none) else (.getNext, i, some item)

/-! ### The bench -/

structure Bench where
  dut : State monitored
  pins : In monitored
  drv : Driver

/-- What happens at an edge: the wires, the item that the driver takes, and the item that is done. -/
structure BenchEdge where
  wires : Cycle monitored
  taken : Option SeqItem
  done : Option SeqItem

def Bench.driven (t : Bench) (next : Option SeqItem) : Driver × In monitored × Option SeqItem :=
  t.drv.edge next t.pins (out t.dut t.pins)

/-- The input is the item that the sequencer holds ready, if any; a driver that is busy leaves it there. -/
def bench : Machine (Option SeqItem) BenchEdge Bench where
  step t next :=
    { dut := posedge t.dut t.pins
      pins := (t.driven next).2.1
      drv := (t.driven next).1 }
  out t next :=
    { wires := (t.pins, out t.dut t.pins)
      taken := if t.drv = .getNext then next else none
      done := (t.driven next).2.2 }

/-- After the reset: the driver has taken back its `VALID`s and waits for an item. -/
def Bench.Starts (t : Bench) : Prop :=
  IsReset t.dut ∧ t.drv = .getNext ∧ t.pins.awvalid = false ∧ t.pins.wvalid = false ∧ t.pins.arvalid = false

/-- The items that are taken and done in a trace, and what the monitor sees. -/
def takenItems (tr : List (Option SeqItem × BenchEdge)) : List SeqItem := tr.filterMap (·.2.taken)
def doneItems (tr : List (Option SeqItem × BenchEdge)) : List SeqItem := tr.filterMap (·.2.done)
def wires (tr : List (Option SeqItem × BenchEdge)) : List (Cycle monitored) := tr.map (·.2.wires)

section
variable (c : Option SeqItem × BenchEdge) (tr : List (Option SeqItem × BenchEdge))

theorem takenItems_cons : takenItems (c :: tr) = c.2.taken.toList ++ takenItems tr := by
  rw [takenItems, List.filterMap_cons]
  rcases c.2.taken with _ | x <;> rfl

theorem doneItems_cons : doneItems (c :: tr) = c.2.done.toList ++ doneItems tr := by
  rw [doneItems, List.filterMap_cons]
  rcases c.2.done with _ | x <;> rfl

end

/-! ### What the items should get -/

namespace SeqItem

def req (item : SeqItem) : Req monitored := ⟨item.awid, item.addr⟩
def beat (item : SeqItem) : WBeat monitored := ⟨item.wid, item.data, item.strb⟩

/-- What the item makes of the registers, and the item with its answer. -/
def store (item : SeqItem) (m : RegFile) : RegFile :=
  match item.kind with
  | .write => item.req.store item.beat m
  | .read => m

def answered (item : SeqItem) (m : RegFile) : SeqItem :=
  match item.kind with
  | .write => { item with resp := (item.req.bBeat item.beat).bresp }
  | .read => { item with data := (item.req.rBeat m).rdata, resp := (item.req.rBeat m).rresp }

/-- The item as the monitor reports it. -/
def report (item : SeqItem) : WriteItem ⊕ ReadItem :=
  match item.kind with
  | .write => .inl ⟨item.awid, item.wid, item.addr, item.data, item.strb, item.resp⟩
  | .read => .inr ⟨item.awid, item.awid, item.addr, item.data, item.resp⟩

/-- The edges that an item takes after the one at which the driver takes it. -/
def edges (item : SeqItem) : Nat :=
  match item.kind with
  | .write => 3
  | .read => 2

end SeqItem

/-- The items `its` one after the other on the registers `m`. -/
def serve : RegFile → List SeqItem → List SeqItem
  | _, [] => []
  | m, item :: its => item.answered m :: serve (item.store m) its

/-! ### The driver and the phases -/

/-- The item that the driver is busy with. -/
def Driver.pending : Driver → Option SeqItem
  | .getNext => none
  | .awLoop item _ | .wLoop item _ | .bLoop item _ | .arLoop item _ | .rLoop item _ => some item

/-- The edges until it is done. -/
def Driver.toGo : Driver → Nat
  | .getNext => 0
  | .awLoop .. => 3
  | .wLoop .. | .arLoop .. => 2
  | .bLoop .. | .rLoop .. => 1

/-- What the observers of the monitor have seen of it. -/
def Driver.observed : Driver → WriteObs × ReadObs
  | .wLoop item _ => (.awaitW item.req, .awaitAr)
  | .bLoop item _ => (.awaitB item.req item.beat, .awaitAr)
  | .rLoop item _ => (.awaitAw, .awaitR item.req)
  | _ => (.awaitAw, .awaitAr)

/-- No `VALID` is up. -/
def In.Quiet (i : In monitored) : Prop := i.awvalid = false ∧ i.wvalid = false ∧ i.arvalid = false

/-- The registers `m` are those before the item in progress; the driver has just come to the loop in which it waits. -/
def Serving (m : RegFile) (ph : Phase monitored) (i : In monitored) : Driver → Prop
  | .getNext => i.Quiet ∧ ∃ x y, ph = ⟨m, .idle x, .idle y⟩
  | .awLoop item left =>
    left = 64 ∧ item.kind = .write ∧ ph = ⟨m, .idle true, .idle true⟩ ∧ ∃ j : In monitored, j.Quiet ∧ i = j.startWrite item
  | .wLoop item left =>
    left = 64 ∧ item.kind = .write ∧ ph = ⟨m, .await item.req, .idle true⟩ ∧
      ∃ j : In monitored, j.Quiet ∧ i = { j.startWrite item with awvalid := false }
  | .bLoop item left =>
    left = 64 ∧ item.kind = .write ∧ ph = ⟨item.store m, .resp (item.req.bBeat item.beat), .idle true⟩ ∧
      i.Quiet ∧ i.bready = true
  | .arLoop item left =>
    left = 64 ∧ item.kind = .read ∧ ph = ⟨m, .idle true, .idle true⟩ ∧ ∃ j : In monitored, j.Quiet ∧ i = j.startRead item
  | .rLoop item left =>
    left = 64 ∧ item.kind = .read ∧ ph = ⟨m, .idle true, .resp (item.req.rBeat m)⟩ ∧ i.Quiet ∧ i.rready = true

section
variable {m : RegFile} {ph : Phase monitored} {i : In monitored} {d : Driver} {next : Option SeqItem}

/-- An edge that finishes no item: the driver goes on to the next loop, and so do the observers. -/
structure Goes (m : RegFile) (ph : Phase monitored) (i : In monitored) (d : Driver) (next : Option SeqItem) : Prop where
  done : (d.edge next i (ph.out i)).2.2 = none
  pending : (d.edge next i (ph.out i)).1.pending = if d = .getNext then next else d.pending
  toGo : (d.edge next i (ph.out i)).1.toGo = if d = .getNext then (next.map SeqItem.edges).getD 0 else d.toGo - 1
  serving : Serving m (ph.step i) (d.edge next i (ph.out i)).2.1 (d.edge next i (ph.out i)).1
  write : observeWrite.next d.observed.1 (i, ph.out i) = .inl (d.edge next i (ph.out i)).1.observed.1
  read : observeRead.next d.observed.2 (i, ph.out i) = .inl (d.edge next i (ph.out i)).1.observed.2

private theorem Goes.of_edge {d' : Driver} {i' : In monitored} (he : d.edge next i (ph.out i) = (d', i', none))
    (hp : d'.pending = if d = .getNext then next else d.pending)
    (hg : d'.toGo = if d = .getNext then (next.map SeqItem.edges).getD 0 else d.toGo - 1) (hs : Serving m (ph.step i) i' d')
    (hw : observeWrite.next d.observed.1 (i, ph.out i) = .inl d'.observed.1)
    (hr : observeRead.next d.observed.2 (i, ph.out i) = .inl d'.observed.2) : Goes m ph i d next :=
  ⟨by rw [he], by rw [he]; exact hp, by rw [he]; exact hg, by rw [he]; exact hs, by rw [he]; exact hw, by rw [he]; exact hr⟩

private theorem goes_getNext (h : Serving m ph i .getNext) (next : Option SeqItem) : Goes m ph i .getNext next := by
  obtain ⟨⟨haw, hw, har⟩, x, y, rfl⟩ := h
  have hphase : Phase.step (⟨m, .idle x, .idle y⟩ : Phase monitored) i = ⟨m, .idle true, .idle true⟩ := by
    simp [Phase.step, WrPhase.step, WrPhase.store, RdPhase.step, haw, har]
  have hwrite : observeWrite.next .awaitAw (i, Phase.out (⟨m, .idle x, .idle y⟩ : Phase monitored) i) = .inl .awaitAw := by
    simp [observeWrite, haw]
  have hread : observeRead.next .awaitAr (i, Phase.out (⟨m, .idle x, .idle y⟩ : Phase monitored) i) = .inl .awaitAr := by
    simp [observeRead, har]
  rcases next with _ | item
  · exact Goes.of_edge rfl rfl rfl ⟨⟨haw, hw, har⟩, true, true, hphase⟩ hwrite hread
  · rcases hk : item.kind with _ | _
    · have he : Driver.edge .getNext (some item) i (Phase.out (⟨m, .idle x, .idle y⟩ : Phase monitored) i) =
          (.arLoop item 64, i.startRead item, none) := by
        rw [Driver.edge, hk, if_neg (by decide)]
      exact Goes.of_edge he rfl (by simp [SeqItem.edges, hk, Driver.toGo]) ⟨rfl, hk, hphase, i, ⟨haw, hw, har⟩, rfl⟩ hwrite hread
    · have he : Driver.edge .getNext (some item) i (Phase.out (⟨m, .idle x, .idle y⟩ : Phase monitored) i) =
          (.awLoop item 64, i.startWrite item, none) := by
        rw [Driver.edge, hk, if_pos rfl]
      exact Goes.of_edge he rfl (by simp [SeqItem.edges, hk, Driver.toGo]) ⟨rfl, hk, hphase, i, ⟨haw, hw, har⟩, rfl⟩ hwrite hread

/-- The AW handshake. -/
private theorem goes_awLoop {item : SeqItem} {left : Nat} (h : Serving m ph i (.awLoop item left))
    (next : Option SeqItem) : Goes m ph i (.awLoop item left) next := by
  obtain ⟨rfl, hk, rfl, j, hj, rfl⟩ := h
  have he : Driver.edge (.awLoop item 64) next (j.startWrite item)
      (Phase.out (⟨m, .idle true, .idle true⟩ : Phase monitored) (j.startWrite item)) =
        (.wLoop item 64, { j.startWrite item with awvalid := false }, none) := rfl
  refine Goes.of_edge he rfl rfl ?_ rfl ?_
  · refine ⟨rfl, hk, ?_, j, hj, rfl⟩
    have har : (j.startWrite item).arvalid = false := hj.2.2
    simp only [Phase.step, RdPhase.step, har]
    rfl
  · have har : (j.startWrite item).arvalid = false := hj.2.2
    simp only [observeRead, Driver.observed, har]
    rfl

/-- The W handshake. -/
private theorem goes_wLoop {item : SeqItem} {left : Nat} (h : Serving m ph i (.wLoop item left))
    (next : Option SeqItem) : Goes m ph i (.wLoop item left) next := by
  obtain ⟨rfl, hk, rfl, j, hj, rfl⟩ := h
  have har : (j.startWrite item).arvalid = false := hj.2.2
  have he : Driver.edge (.wLoop item 64) next { j.startWrite item with awvalid := false }
      (Phase.out (⟨m, .await item.req, .idle true⟩ : Phase monitored) { j.startWrite item with awvalid := false }) =
        (.bLoop item 64, { j.startWrite item with awvalid := false, wvalid := false }, none) := rfl
  refine Goes.of_edge he rfl rfl ?_ rfl ?_
  · refine ⟨rfl, hk, ?_, ⟨rfl, rfl, har⟩, rfl⟩
    simp only [Phase.step, RdPhase.step, har, SeqItem.store, hk]
    rfl
  · simp only [observeRead, Driver.observed, har]
    rfl

/-- The AR handshake. -/
private theorem goes_arLoop {item : SeqItem} {left : Nat} (h : Serving m ph i (.arLoop item left))
    (next : Option SeqItem) : Goes m ph i (.arLoop item left) next := by
  obtain ⟨rfl, hk, rfl, j, hj, rfl⟩ := h
  have haw : (j.startRead item).awvalid = false := hj.1
  have he : Driver.edge (.arLoop item 64) next (j.startRead item)
      (Phase.out (⟨m, .idle true, .idle true⟩ : Phase monitored) (j.startRead item)) =
        (.rLoop item 64, { j.startRead item with arvalid := false }, none) := rfl
  refine Goes.of_edge he rfl rfl ?_ ?_ rfl
  · refine ⟨rfl, hk, ?_, ⟨hj.1, hj.2.1, rfl⟩, rfl⟩
    simp only [Phase.step, WrPhase.step, haw]
    rfl
  · simp only [observeWrite, Driver.observed, haw]
    rfl

/-- An edge that finishes the item in progress: it comes back with its answer, and the monitor reports it. -/
structure Ends (m : RegFile) (ph : Phase monitored) (i : In monitored) (d : Driver) (item : SeqItem) : Prop where
  pending : d.pending = some item
  toGo : d.toGo = 1
  done : ∀ next, d.edge next i (ph.out i) = (.getNext, (d.edge none i (ph.out i)).2.1, some (item.answered m))
  serving : Serving (item.store m) (ph.step i) (d.edge none i (ph.out i)).2.1 .getNext
  report : ∀ r l, observeWrite.together observeRead d.observed (((i, ph.out i), r) :: l) =
    (item.answered m).report :: observeWrite.together observeRead (.awaitAw, .awaitAr) l

/-- The B handshake. -/
private theorem ends_bLoop {item : SeqItem} {left : Nat} (h : Serving m ph i (.bLoop item left)) :
    Ends m ph i (.bLoop item left) item := by
  obtain ⟨rfl, hk, rfl, ⟨haw, hw, har⟩, hb⟩ := h
  have hans : item.answered m = { item with resp := (item.req.bBeat item.beat).bresp } := by
    rw [SeqItem.answered, hk]
  refine ⟨rfl, rfl, fun next => ?_, ⟨⟨haw, hw, har⟩, false, true, ?_⟩, fun r l => ?_⟩
  · rw [hans]
    rfl
  · simp only [Phase.step, WrPhase.step, WrPhase.store, RdPhase.step, hb, har]
    rfl
  · have hdone : observeWrite.done (.awaitB item.req item.beat)
        (i, Phase.out (⟨item.store m, .resp (item.req.bBeat item.beat), .idle true⟩ : Phase monitored) i) =
          some (writeItem item.req item.beat (item.req.bBeat item.beat)) := by
      simp [Observer.done, observeWrite, Phase.out, WrPhase.b, hb]
    have hquiet : observeRead.done .awaitAr
        (i, Phase.out (⟨item.store m, .resp (item.req.bBeat item.beat), .idle true⟩ : Phase monitored) i) = none := by
      simp [Observer.done, observeRead, har]
    rw [Driver.observed, Observer.together_first hdone hquiet, hans, SeqItem.report, hk]
    rfl

/-- The R handshake. -/
private theorem ends_rLoop {item : SeqItem} {left : Nat} (h : Serving m ph i (.rLoop item left)) :
    Ends m ph i (.rLoop item left) item := by
  obtain ⟨rfl, hk, rfl, ⟨haw, hw, har⟩, hb⟩ := h
  have hans : item.answered m = { item with data := (item.req.rBeat m).rdata, resp := (item.req.rBeat m).rresp } := by
    rw [SeqItem.answered, hk]
  refine ⟨rfl, rfl, fun next => ?_, ⟨⟨haw, hw, har⟩, true, false, ?_⟩, fun r l => ?_⟩
  · rw [hans]
    rfl
  · simp only [Phase.step, WrPhase.step, WrPhase.store, RdPhase.step, hb, haw, SeqItem.store, hk]
    rfl
  · have hdone : observeRead.done (.awaitR item.req)
        (i, Phase.out (⟨m, .idle true, .resp (item.req.rBeat m)⟩ : Phase monitored) i) =
          some (readItem item.req (item.req.rBeat m)) := by
      simp [Observer.done, observeRead, Phase.out, RdPhase.r, hb]
    have hquiet : observeWrite.done .awaitAw
        (i, Phase.out (⟨m, .idle true, .resp (item.req.rBeat m)⟩ : Phase monitored) i) = none := by
      simp [Observer.done, observeWrite, haw]
    rw [Driver.observed, Observer.together_second hquiet hdone, hans, SeqItem.report, hk]
    rfl

/-- Each edge goes on with the item in progress or finishes it. -/
theorem goes_or_ends (h : Serving m ph i d) (next : Option SeqItem) :
    Goes m ph i d next ∨ ∃ item, Ends m ph i d item := by
  rcases d with _ | ⟨item, left⟩ | ⟨item, left⟩ | ⟨item, left⟩ | ⟨item, left⟩ | ⟨item, left⟩
  · exact Or.inl (goes_getNext h next)
  · exact Or.inl (goes_awLoop h next)
  · exact Or.inl (goes_wLoop h next)
  · exact Or.inr ⟨item, ends_bLoop h⟩
  · exact Or.inl (goes_arLoop h next)
  · exact Or.inr ⟨item, ends_rLoop h⟩

end

/-! ### Runs -/

section
variable {t : Bench} {m : RegFile} {ph : Phase monitored}

private theorem driven_eq (hr : Rel t.dut ph) (next : Option SeqItem) :
    t.driven next = t.drv.edge next t.pins (ph.out t.pins) := by
  rw [Bench.driven, out_rel hr]

private theorem drv_step (hr : Rel t.dut ph) (next : Option SeqItem) :
    (bench.step t next).drv = (t.drv.edge next t.pins (ph.out t.pins)).1 := by
  rw [← driven_eq hr]
  rfl

private theorem pending_getNext {d : Driver} (h : d = .getNext) : d.pending = none := by
  rw [h]
  rfl

/-- An edge of the bench that goes on. -/
private theorem goes_edge (hr : Rel t.dut ph) (next : Option SeqItem) (h : Goes m ph t.pins t.drv next) :
    (bench.out t next).done = none ∧
      t.drv.pending.toList ++ (bench.out t next).taken.toList = (bench.step t next).drv.pending.toList ∧
      Serving m (ph.step t.pins) (bench.step t next).pins (bench.step t next).drv := by
  have hp : (bench.step t next).pins = (t.drv.edge next t.pins (ph.out t.pins)).2.1 := by
    show (t.driven next).2.1 = _
    rw [driven_eq hr]
  refine ⟨?_, ?_, ?_⟩
  · show (t.driven next).2.2 = none
    rw [driven_eq hr]
    exact h.done
  · rw [drv_step hr, h.pending]
    show t.drv.pending.toList ++ (if t.drv = .getNext then next else none).toList = _
    split
    · rename_i hg
      rw [pending_getNext hg]
      rfl
    · rw [Option.toList_none, List.append_nil]
  · rw [drv_step hr, hp]
    exact h.serving

/-- An edge of the bench that finishes an item. -/
private theorem ends_edge {item : SeqItem} (hr : Rel t.dut ph) (next : Option SeqItem) (h : Ends m ph t.pins t.drv item) :
    (bench.out t next).done = some (item.answered m) ∧ (bench.out t next).taken = none ∧
      (bench.step t next).drv = .getNext ∧ Serving (item.store m) (ph.step t.pins) (bench.step t next).pins .getNext := by
  have hedge := driven_eq hr next
  rw [h.done next] at hedge
  refine ⟨?_, if_neg ?_, ?_, ?_⟩
  · show (t.driven next).2.2 = _
    rw [hedge]
  · intro hg
    have := h.pending
    rw [pending_getNext hg] at this
    cases this
  · show (t.driven next).1 = _
    rw [hedge]
  · show Serving _ _ (t.driven next).2.1 _
    rw [hedge]
    exact h.serving

end

/-- What the bench has done in a trace: the items `its`, which are the one in progress at its beginning and those taken
since, but for the one in progress at its end. -/
structure Benched (m : RegFile) (t t' : Bench) (tr : List (Option SeqItem × BenchEdge)) (its : List SeqItem) :
    Prop where
  taken : t.drv.pending.toList ++ takenItems tr = its ++ t'.drv.pending.toList
  done : doneItems tr = serve m its
  monitor : ∀ l : List (Cycle monitored × Observer.Race), l.map Prod.fst = wires tr →
    observeWrite.together observeRead t.drv.observed l = (doneItems tr).map SeqItem.report

theorem benched_run (nexts : List (Option SeqItem)) : ∀ {t : Bench} {m : RegFile} {ph : Phase monitored},
    Rel t.dut ph → Serving m ph t.pins t.drv → ∃ its, Benched m t (bench.run t nexts) (bench.trace t nexts) its := by
  induction nexts with
  | nil =>
    intro t m ph _ _
    refine ⟨[], by simp [takenItems], rfl, fun l hl => ?_⟩
    rw [List.map_eq_nil_iff.1 (show l.map Prod.fst = [] from hl)]
    rfl
  | cons next nexts ih =>
    intro t m ph hr hs
    have hnext : Rel (bench.step t next).dut (ph.step t.pins) := rel_posedge hr t.pins
    have hwire : (bench.out t next).wires = (t.pins, ph.out t.pins) := by
      show (t.pins, out t.dut t.pins) = _
      rw [out_rel hr]
    rcases goes_or_ends hs next with hg | ⟨item, he⟩
    · obtain ⟨hdone, htaken, hserv⟩ := goes_edge hr next hg
      obtain ⟨its, hb⟩ := ih hnext hserv
      have hall : doneItems (bench.trace t (next :: nexts)) = doneItems (bench.trace (bench.step t next) nexts) := by
        rw [Machine.trace_cons, doneItems_cons, hdone]
        rfl
      refine ⟨its, ?_, by rw [hall, hb.done], fun l hl => ?_⟩
      · rw [Machine.run_cons, ← hb.taken, ← htaken, List.append_assoc, Machine.trace_cons, takenItems_cons]
      · rcases l with _ | ⟨⟨c, r⟩, l⟩
        · cases hl
        · rw [Machine.trace_cons, wires, List.map_cons, List.map_cons, List.cons.injEq] at hl
          have hc : c = (t.pins, ph.out t.pins) := hl.1.trans hwire
          have hmon := hb.monitor l hl.2
          rw [drv_step hr] at hmon
          rw [hall, hc]
          show observeWrite.together observeRead (t.drv.observed.1, t.drv.observed.2) _ = _
          rw [Observer.together, hg.write, hg.read]
          exact hmon
    · obtain ⟨hdone, htaken, hidle, hserv⟩ := ends_edge hr next he
      rw [← hidle] at hserv
      obtain ⟨its, hb⟩ := ih hnext hserv
      have hall : doneItems (bench.trace t (next :: nexts)) =
          item.answered m :: doneItems (bench.trace (bench.step t next) nexts) := by
        rw [Machine.trace_cons, doneItems_cons, hdone]
        rfl
      refine ⟨item :: its, ?_, by rw [hall, hb.done, serve], fun l hl => ?_⟩
      · have := hb.taken
        rw [hidle] at this
        rw [Machine.run_cons, List.cons_append, ← this, Machine.trace_cons, takenItems_cons, htaken, he.pending]
        rfl
      · rcases l with _ | ⟨⟨c, r⟩, l⟩
        · cases hl
        · rw [Machine.trace_cons, wires, List.map_cons, List.map_cons, List.cons.injEq] at hl
          have hc : c = (t.pins, ph.out t.pins) := hl.1.trans hwire
          have hmon := hb.monitor l hl.2
          rw [hidle] at hmon
          rw [hall, hc, he.report, List.map_cons]
          exact congrArg _ hmon

/-- The driver after an edge that goes on. -/
private theorem goes_toGo {t : Bench} {m : RegFile} {ph : Phase monitored} (hr : Rel t.dut ph) (next : Option SeqItem)
    (h : Goes m ph t.pins t.drv next) : (bench.step t next).drv.toGo =
      if t.drv = .getNext then (next.map SeqItem.edges).getD 0 else t.drv.toGo - 1 := by
  rw [drv_step hr, h.toGo]

private theorem toGo_eq_zero {d : Driver} (h : d.toGo = 0) : d = .getNext := by
  rcases d with _ | _ | _ | _ | _ | _
  · rfl
  all_goals cases h

/-- An item in progress is done after the edges that it takes. -/
private theorem done_toGo (nexts : List (Option SeqItem)) : ∀ {t : Bench} {m : RegFile} {ph : Phase monitored} {k : Nat}
    {e : Option SeqItem × BenchEdge}, Rel t.dut ph → Serving m ph t.pins t.drv → t.drv.toGo = k + 1 →
      (bench.trace t nexts)[k]? = some e → e.2.done.isSome = true := by
  induction nexts with
  | nil =>
    intro t m ph k e _ _ _ he
    simp at he
  | cons next nexts ih =>
    intro t m ph k e hr hs hk he
    have hbusy : t.drv ≠ .getNext := by
      intro h
      rw [h] at hk
      cases hk
    rw [Machine.trace_cons] at he
    rcases goes_or_ends hs next with hg | ⟨item, hend⟩
    · have hgo := goes_toGo hr next hg
      rw [if_neg hbusy, hk, Nat.add_sub_cancel] at hgo
      obtain ⟨-, htaken, hserv⟩ := goes_edge hr next hg
      rcases k with _ | k
      · -- the driver would be free without having finished
        have hfree := toGo_eq_zero hgo
        have hpend := hg.pending
        rw [if_neg hbusy, ← drv_step hr, hfree] at hpend
        rcases hd : t.drv with _ | _ | _ | _ | _ | _
        · exact absurd hd hbusy
        all_goals rw [hd] at hpend; cases hpend
      · rw [List.getElem?_cons_succ] at he
        exact ih (rel_posedge hr t.pins) hserv hgo he
    · have hone := hend.toGo
      rw [hk] at hone
      obtain rfl : k = 0 := by omega
      rw [List.getElem?_cons_zero, Option.some.injEq] at he
      rw [← he]
      show (bench.out t next).done.isSome = true
      rw [(ends_edge hr next hend).1]
      rfl

/-- Along a run the bench stays in one of the states that are described. -/
private theorem serving_run (nexts : List (Option SeqItem)) : ∀ {t : Bench} {m : RegFile} {ph : Phase monitored},
    Rel t.dut ph → Serving m ph t.pins t.drv →
      ∃ m' ph', Rel (bench.run t nexts).dut ph' ∧ Serving m' ph' (bench.run t nexts).pins (bench.run t nexts).drv := by
  induction nexts with
  | nil => exact fun hr hs => ⟨_, _, hr, hs⟩
  | cons next nexts ih =>
    intro t m ph hr hs
    rcases goes_or_ends hs next with hg | ⟨item, he⟩
    · exact ih (rel_posedge hr t.pins) (goes_edge hr next hg).2.2
    · obtain ⟨-, -, hidle, hserv⟩ := ends_edge hr next he
      rw [← hidle] at hserv
      exact ih (rel_posedge hr t.pins) hserv

theorem serving_start {t : Bench} (h : t.Starts) :
    Rel t.dut (.initial monitored) ∧ Serving (fun _ => 0) (.initial monitored) t.pins t.drv := by
  obtain ⟨hreset, hdrv, hquiet⟩ := h
  rw [hdrv]
  exact ⟨rel_reset hreset, hquiet, false, false, rfl⟩

/-- Whatever items the sequencer has and whenever it hands them over: the driver gives them back in order, each with the
answer of a store of 32 words, and a write at the third edge after it was taken, a read at the second; and the monitor
reports the items that came back, in order, and nothing else. -/
theorem bench_serves {t : Bench} (h : t.Starts) (nexts : List (Option SeqItem)) :
    (∃ its, takenItems (bench.trace t nexts) = its ++ (bench.run t nexts).drv.pending.toList ∧
        doneItems (bench.trace t nexts) = serve (fun _ => 0) its) ∧
      (∀ pre c post item, bench.trace t nexts = pre ++ c :: post → c.2.taken = some item →
        ∀ e, post[item.edges - 1]? = some e → e.2.done.isSome = true) ∧
      ∀ l : List (Cycle monitored × Observer.Race), l.map Prod.fst = wires (bench.trace t nexts) →
        monitor l = (doneItems (bench.trace t nexts)).map SeqItem.report := by
  obtain ⟨hr, hs⟩ := serving_start h
  obtain ⟨its, hb⟩ := benched_run nexts hr hs
  have htaken := hb.taken
  have hmon := hb.monitor
  rw [h.2.1] at htaken hmon
  refine ⟨⟨its, htaken, hb.done⟩, fun pre c post item hsplit hc e he => ?_, hmon⟩
  obtain ⟨js, next, ks, -, -, rfl, rfl⟩ := Machine.trace_split _ hsplit
  obtain ⟨m', ph', hr', hs'⟩ := serving_run js hr hs
  -- the driver was free, and is on its way with the item
  have hfree : (bench.run t js).drv = .getNext ∧ next = some item := by
    change (if (bench.run t js).drv = .getNext then next else none) = some item at hc
    split at hc
    · rename_i hg
      exact ⟨hg, hc⟩
    · cases hc
  rcases goes_or_ends hs' next with hg | ⟨item', hend⟩
  · have hgo := goes_toGo hr' next hg
    rw [if_pos hfree.1, hfree.2] at hgo
    have hpos : item.edges = item.edges - 1 + 1 := by
      rcases hk : item.kind with _ | _ <;> simp [SeqItem.edges, hk]
    rw [hfree.2] at he
    refine done_toGo ks (rel_posedge hr' _) (goes_edge hr' next hg).2.2 ?_ (by rw [hfree.2]; exact he)
    rw [hfree.2, hgo]
    exact hpos
  · have := hend.pending
    rw [hfree.1] at this
    cases this

/-- The sequence that writes register 1, writes it again with another `WID`, and reads it. -/
theorem bench_serves_mismatch :
    let prime : SeqItem := ⟨.write, 0x04, 0x12345678, 0xf, 1, 1, 0⟩
    let mismatch : SeqItem := ⟨.write, 0x04, 0xdeadbeef, 0xf, 5, 6, 0⟩
    let readback : SeqItem := ⟨.read, 0x04, 0, 0, 0, 0, 0⟩
    let t : Bench := ⟨State.zero _, In.zero _, .getNext⟩
    let tr := bench.trace t [some prime, none, none, none, some mismatch, none, none, none, some readback, none, none]
    doneItems tr = [prime, { mismatch with resp := respSlverr }, { readback with data := 0x12345678 }] ∧
      monitor ((wires tr).map fun c => (c, Observer.Race.both)) = (doneItems tr).map SeqItem.report := by
  intro prime mismatch readback t tr
  refine ⟨by decide, (bench_serves ⟨isReset_zero _, rfl, rfl, rfl, rfl⟩ _).2.2 _ ?_⟩
  simp [tr, Function.comp_def]

end AxiApb.RegBlock
