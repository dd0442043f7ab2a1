import AxiApb.SimpleSpec

/-!
# The registers of the single-beat bridge simulate the transaction machine

`Rel` says which registers stand for which phase; `bridge_simulation` makes the bridge and the machine show the same
trace from reset on, and `Reachable.rel` gives every reachable state its phase.
-/

namespace AxiApb.Simple

open Clocked

variable {P : Params}

/-! ### What the registers hold -/

/-- The registers loaded by an address handshake. -/
structure Holds (s : State P) (q : Req P) : Prop where
  id : s.idReg = q.id
  addr : s.addrReg = q.addr
  prot : s.protReg = q.prot
  sel : s.selApb1 = q.port

def Phase.code : Phase P → StCode
  | idle .. => .idle
  | err .. => .errResp
  | wapb .. => .writeApb
  | wresp .. => .writeResp
  | rapb .. => .readApb
  | rresp .. => .readResp

/-- The payload registers of a phase. -/
def Loads (s : State P) : Phase P → Prop
  | .idle aw w => (∀ q ∈ aw, Holds s q) ∧ ∀ v ∈ w, s.wdataReg = v.wdata ∧ s.wstrbReg = v.wstrb
  | .err q _ => s.idReg = q.id ∧ s.errResp = respDecerr
  | .wapb q _ _ => Holds s q
  | .rapb q _ => Holds s q
  | _ => True

structure Rel (s : State P) (ph : Phase P) : Prop where
  ok : ph.Ok
  code : s.state = ph.code
  aw : s.awPending = ph.awHeld
  w : s.wPending = ph.wHeld
  apb : ∀ x, (s.port x).view = ph.apb x
  b : (if s.bvalid then some ⟨s.bid, s.bresp⟩ else none) = ph.b
  r : (if s.rvalid then some ⟨s.rid, s.rdata, s.rresp, s.rlast⟩ else none) = ph.r
  loads : Loads s ph

section
variable {s : State P} {ph : Phase P}

theorem Rel.bvalid (h : Rel s ph) : s.bvalid = ph.b.isSome := by
  rw [← h.b]; cases s.bvalid <;> rfl

theorem Rel.rvalid (h : Rel s ph) : s.rvalid = ph.r.isSome := by
  rw [← h.r]; cases s.rvalid <;> rfl

theorem Rel.isIdle (h : Rel s ph) : (s.state == .idle) = ph.isIdle := by
  rw [h.code]; cases ph <;> rfl

/-- Related registers show the same outputs. -/
theorem out_rel (h : Rel s ph) (i : In P) : out s i = ph.out i := by
  simp only [out, Phase.out, awready, wready, arready, h.isIdle, h.aw, h.w, h.b, h.r, ← h.apb]
  rfl

end

/-! ### Ports -/

theorem port_setPort (t : State P) (x y : Bool) (f : Port P → Port P) :
    (t.setPort x f).port y = if y = x then f (t.port y) else t.port y := by
  cases x <;> cases y <;> rfl

private theorem view_setPort {t : State P} {x : Bool} {f : Port P → Port P} {v w : PortView P}
    (ht : ∀ y, (t.port y).view = if y = x then v else .quiet) (hf : ∀ p : Port P, p.view = v → (f p).view = w)
    (y : Bool) : ((t.setPort x f).port y).view = if y = x then w else .quiet := by
  have hy := ht y
  rw [port_setPort]
  split
  · rename_i he
    rw [if_pos he] at hy
    exact hf _ hy
  · rename_i he
    rw [if_neg he] at hy
    exact hy

private theorem view_launch {t : State P} {x : Bool} {f : Port P → Port P} {w : PortView P}
    (ht : ∀ y, (t.port y).view = .quiet) (hf : ∀ p : Port P, p.penable = false → (f p).view = w) (y : Bool) :
    ((t.setPort x f).port y).view = if y = x then w else .quiet := by
  refine view_setPort (v := .quiet) (fun y => by rw [ht y, ite_self]) (fun p hp => hf p ?_) y
  simp only [Port.view, PortView.quiet, PortView.mk.injEq] at hp
  exact hp.2.1

/-- `PENABLE` of a selected port is raised. -/
private theorem view_enable {p : Port P} {k : Ctrl P} (h : p.view = ⟨true, false, some k⟩) :
    Port.view { p with penable := true } = ⟨true, true, some k⟩ := by
  simp only [Port.view, PortView.mk.injEq] at h ⊢
  exact ⟨h.1, trivial, h.2.2⟩

/-- A transfer ends. -/
private theorem view_done {t : State P} {x : Bool} {v : PortView P}
    (ht : ∀ y, (t.port y).view = if y = x then v else .quiet) (y : Bool) :
    ((t.setPort x Port.release).port y).view = .quiet := by
  have := view_setPort (f := Port.release) (w := .quiet) ht (fun _ _ => rfl) y
  rwa [ite_self] at this

private theorem penable_of_view {s : State P} {q : Req P} {k : Ctrl P} {en : Bool}
    (h : ∀ x, (s.port x).view = if x = q.port then ⟨true, en, some k⟩ else .quiet) :
    (s.port q.port).penable = en := by
  have := h q.port
  rw [if_pos rfl, Port.view, PortView.mk.injEq] at this
  exact this.2.1

/-! ### One edge -/

section
variable {s : State P} {i : In P}

private theorem respDone_quiet (hb : s.bvalid = false) (hr : s.rvalid = false) : respDone s i s = s := by
  simp [respDone, hb, hr]

private theorem respDone_b (hb : s.bvalid = true) (hr : s.rvalid = false) :
    respDone s i s = if i.bready then { s with bvalid := false } else s := by
  simp [respDone, hb, hr]

private theorem respDone_r (hb : s.bvalid = false) (hr : s.rvalid = true) :
    respDone s i s = if i.rready then { s with rvalid := false } else s := by
  simp [respDone, hb, hr]

/-! ### The idle phase -/

private theorem rel_setW_idle {aw : Option (Req P)} (h : Rel s (.idle aw none)) :
    Rel { s with wdataReg := i.wdata, wstrbReg := i.wstrb, wPending := true } (.idle aw (some i.wBeat)) :=
  ⟨h.ok, h.code, h.aw, rfl, h.apb, h.b, h.r,
    fun q hq => have := h.loads.1 q hq; ⟨this.id, this.addr, this.prot, this.sel⟩,
    fun v hv => by cases hv; exact ⟨rfl, rfl⟩⟩

private theorem rel_setW_err {q : Req P} (h : Rel s (.err q none)) :
    Rel { s with wdataReg := i.wdata, wstrbReg := i.wstrb, wPending := true } (.err q (some i.wBeat)) :=
  ⟨h.ok, h.code, h.aw, rfl, h.apb, h.b, h.r, h.loads⟩

/-- The W half of an edge in the idle phase, for registers `t` to which the AW half has been assigned. -/
private theorem rel_idleW {t : State P} {w : Option (WBeat P)} {f : Option (WBeat P) → Phase P}
    (hw : wHandshake s i = (w.isNone && (i.wvalid && !i.arvalid))) (ht : Rel t (f w))
    (hset : Rel t (f none) →
      Rel { t with wdataReg := i.wdata, wstrbReg := i.wstrb, wPending := true } (f (some i.wBeat))) :
    Rel (idleW s i t) (f (Phase.takeW w i)) := by
  rw [idleW, hw, Phase.takeW]
  cases w with
  | none =>
    cases i.wvalid && !i.arvalid with
    | true => exact hset ht
    | false => exact ht
  | some v => exact ht

private theorem wHandshake_idle {aw : Option (Req P)} {w : Option (WBeat P)} (h : Rel s (.idle aw w)) :
    wHandshake s i = (w.isNone && (i.wvalid && !i.arvalid)) := by
  simp only [wHandshake, wready, h.w, h.isIdle, Phase.wHeld, Phase.isIdle]
  cases w <;> cases i.wvalid <;> rfl

private theorem paramErr_eq (q : Req P) : paramErr P q.len q.size = !decide q.Single := by
  rw [paramErr, bne, bne, ← Bool.not_and, beq_eq_decide, beq_eq_decide, ← Bool.decide_and]
  rfl

/-- Both halves of a write are there. -/
private theorem rel_launch {q : Req P} {v : WBeat P} (h : Rel s (.idle (some q) (some v))) :
    Rel (posedge s i) (.wapb q v false) := by
  have hq : Holds s q := h.loads.1 q rfl
  obtain ⟨hd, hstrb⟩ := h.loads.2 v rfl
  have haw : awHandshake s i = false := by simp [awHandshake, awready, h.aw, Phase.awHeld]
  have hw : wHandshake s i = false := wHandshake_idle h
  have hstep : posedge s i = idleWrite s s := by
    have hboth : (s.awPending && s.wPending) = true := by rw [h.aw, h.w]; rfl
    simp only [posedge, h.code, Phase.code, stIdle, respDone_quiet h.bvalid h.rvalid, idleAw, haw, idleW, hw, hboth,
      if_true, Bool.false_eq_true, if_false]
  have hne : (s.state == .errResp) = false := by rw [h.code]; rfl
  rw [hstep, idleWrite, hne, if_neg Bool.false_ne_true]
  refine ⟨h.ok q rfl, rfl, rfl, rfl, fun y => ?_, h.b, h.r, ⟨hq.id, hq.addr, hq.prot, hq.sel⟩⟩
  show ((s.setPort s.selApb1 (launchWrite s)).port y).view = if y = q.port then _ else _
  rw [← hq.sel]
  refine view_launch h.apb (fun p hp => ?_) y
  simp [launchWrite, Port.view, Port.ctrl, writeCtrl, hp, hq.addr, hq.prot, hd, hstrb]

/-- The AW of a write is held and its W beat is awaited. -/
private theorem rel_awaitW {q : Req P} (h : Rel s (.idle (some q) none)) :
    Rel (posedge s i) (.idle (some q) (Phase.takeW none i)) := by
  have haw : awHandshake s i = false := by simp [awHandshake, awready, h.aw, Phase.awHeld]
  have har : arHandshake s i = false := by simp [arHandshake, arready, h.aw, Phase.awHeld]
  have hstep : posedge s i = idleW s i s := by
    have hboth : (s.awPending && s.wPending) = false := by rw [h.aw, h.w]; rfl
    simp only [posedge, h.code, Phase.code, stIdle, respDone_quiet h.bvalid h.rvalid, idleAw, haw, har, hboth,
      Bool.false_eq_true, if_false]
  rw [hstep]
  exact rel_idleW (wHandshake_idle h) h rel_setW_idle

/-- A write is answered once it was rejected and a W beat is there. -/
private theorem rel_err {q : Req P} {w : Option (WBeat P)} (h : Rel s (.err q w)) :
    Rel (posedge s i) ((Phase.err q w).step i) := by
  obtain ⟨hid, herr⟩ := h.loads
  have hstep : posedge s i = stErrResp s s := by
    simp only [posedge, h.code, Phase.code, respDone_quiet h.bvalid h.rvalid]
  rw [hstep, stErrResp, h.aw, h.w]
  cases w with
  | none => exact h
  | some v =>
    refine ⟨trivial, rfl, rfl, rfl, h.apb, ?_, h.r, trivial⟩
    simp [Phase.awHeld, Phase.wHeld, hid, herr, Phase.step, Phase.b]

private theorem rel_wapb {q : Req P} {v : WBeat P} {en : Bool} (h : Rel s (.wapb q v en)) :
    Rel (posedge s i) ((Phase.wapb q v en).step i) := by
  have hq : Holds s q := h.loads
  have hstep : posedge s i = stWriteApb s i s := by
    simp only [posedge, h.code, Phase.code, respDone_quiet h.bvalid h.rvalid]
  rw [hstep, stWriteApb, hq.sel, penable_of_view h.apb]
  cases en with
  | false =>
    refine ⟨h.ok, h.code, h.aw, h.w, view_setPort h.apb (fun p hp => view_enable hp), h.b, h.r, ?_⟩
    exact ⟨hq.id, hq.addr, hq.prot, hq.sel⟩
  | true =>
    rw [Phase.step]
    cases hp : i.pready q.port with
    | true =>
      refine ⟨trivial, rfl, h.aw, h.w, view_done h.apb, ?_, h.r, trivial⟩
      simp [hq.id, Phase.b]
    | false => exact h

/-- An idle bridge that holds nothing. -/
private theorem rel_idle (haw : s.awPending = false) (hw : s.wPending = false)
    (hapb : ∀ x, (s.port x).view = .quiet) (hb : s.bvalid = false) (hr : s.rvalid = false) :
    Rel { s with state := .idle } (.idle none none) where
  ok := fun _ hm => by cases hm
  code := rfl
  aw := haw
  w := hw
  apb := hapb
  b := by simp [hb, Phase.b]
  r := by simp [hr, Phase.r]
  loads := ⟨fun _ hm => (by cases hm), fun _ hm => (by cases hm)⟩

private theorem rel_wresp {b : Option (BBeat P)} (h : Rel s (.wresp b)) :
    Rel (posedge s i) ((Phase.wresp b).step i) := by
  have hr : s.rvalid = false := h.rvalid
  cases b with
  | none =>
    have hb : s.bvalid = false := h.bvalid
    have hstep : posedge s i = { s with state := .idle } := by
      simp only [posedge, h.code, Phase.code, respDone_quiet hb hr, hb, Bool.not_false, if_true]
    rw [hstep]
    exact rel_idle h.aw h.w h.apb hb hr
  | some v =>
    have hb : s.bvalid = true := h.bvalid
    have hstep : posedge s i = if i.bready then { s with bvalid := false } else s := by
      simp only [posedge, h.code, Phase.code, respDone_b hb hr, hb, Bool.not_true, Bool.false_eq_true, if_false]
    rw [hstep, Phase.step]
    cases i.bready with
    | true => exact ⟨trivial, h.code, h.aw, h.w, h.apb, rfl, h.r, trivial⟩
    | false => exact h

private theorem rel_rapb {q : Req P} {en : Bool} (h : Rel s (.rapb q en)) :
    Rel (posedge s i) ((Phase.rapb q en).step i) := by
  have hq : Holds s q := h.loads
  have hstep : posedge s i = stReadApb s i s := by
    simp only [posedge, h.code, Phase.code, respDone_quiet h.bvalid h.rvalid]
  rw [hstep, stReadApb, hq.sel, penable_of_view h.apb]
  cases en with
  | false =>
    refine ⟨h.ok, h.code, h.aw, h.w, view_setPort h.apb (fun p hp => view_enable hp), h.b, h.r, ?_⟩
    exact ⟨hq.id, hq.addr, hq.prot, hq.sel⟩
  | true =>
    rw [Phase.step]
    cases hp : i.pready q.port with
    | true =>
      refine ⟨trivial, rfl, h.aw, h.w, view_done h.apb, h.b, ?_, trivial⟩
      simp [hq.id, Phase.r]
    | false => exact h

private theorem rel_rresp {r : Option (RBeat P)} (h : Rel s (.rresp r)) :
    Rel (posedge s i) ((Phase.rresp r).step i) := by
  have hb : s.bvalid = false := h.bvalid
  cases r with
  | none =>
    have hr : s.rvalid = false := h.rvalid
    have hstep : posedge s i = { s with state := .idle } := by
      simp only [posedge, h.code, Phase.code, respDone_quiet hb hr, hr, Bool.not_false, if_true]
    rw [hstep]
    exact rel_idle h.aw h.w h.apb hb hr
  | some v =>
    have hr : s.rvalid = true := h.rvalid
    have hstep : posedge s i = if i.rready then { s with rvalid := false } else s := by
      simp only [posedge, h.code, Phase.code, respDone_r hb hr, hr, Bool.not_true, Bool.false_eq_true, if_false]
    rw [hstep, Phase.step]
    cases i.rready with
    | true => exact ⟨trivial, h.code, h.aw, h.w, h.apb, h.b, rfl, trivial⟩
    | false => exact h

/-- An AW is accepted. -/
private theorem rel_startWrite {w : Option (WBeat P)} (h : Rel s (.idle none w)) (haw : awHandshake s i = true) :
    Rel (idleW s i (idleAw s i s)) (.startWrite i.awReq (Phase.takeW w i)) := by
  have hw : wHandshake s i = (w.isNone && (i.wvalid && !i.arvalid)) := wHandshake_idle h
  have herr : paramErr P i.awlen i.awsize = !decide i.awReq.Single := paramErr_eq i.awReq
  rw [idleAw, haw, if_pos rfl, herr, Phase.startWrite]
  by_cases hq : i.awReq.Single
  · rw [decide_eq_true hq, if_neg (by decide), if_pos hq]
    refine rel_idleW (f := fun w => .idle (some i.awReq) w) hw ?_ rel_setW_idle
    refine ⟨fun q hm => ?_, h.code, rfl, h.w, h.apb, h.b, h.r, fun q hm => ?_, h.loads.2⟩
    · cases hm; exact hq
    · cases hm; exact ⟨rfl, rfl, rfl, rfl⟩
  · rw [decide_eq_false hq, if_pos (by decide), if_neg hq]
    refine rel_idleW (f := fun w => .err i.awReq w) hw ?_ rel_setW_err
    exact ⟨hq, rfl, rfl, h.w, h.apb, h.b, h.r, rfl, rfl⟩

/-- An AR is accepted. -/
private theorem rel_startRead (h : Rel s (.idle none none)) : Rel (idleAr i s) (.startRead i.arReq) := by
  have herr : paramErr P i.arlen i.arsize = !decide i.arReq.Single := paramErr_eq i.arReq
  rw [idleAr, herr, Phase.startRead]
  by_cases hq : i.arReq.Single
  · rw [decide_eq_true hq, if_neg (by decide), if_pos hq]
    refine ⟨hq, rfl, h.aw, h.w, fun y => ?_, h.b, h.r, ⟨rfl, rfl, rfl, rfl⟩⟩
    show ((s.setPort i.arReq.port (launchRead i)).port y).view = if y = i.arReq.port then _ else _
    refine view_launch h.apb (fun p hp => ?_) y
    simp [launchRead, Port.view, Port.ctrl, readCtrl, hp, In.arReq]
  · rw [decide_eq_false hq, if_pos (by decide), if_neg hq]
    exact ⟨trivial, rfl, h.aw, h.w, h.apb, h.b, rfl, trivial⟩

/-- No AW is held. -/
private theorem rel_idleStep {w : Option (WBeat P)} (h : Rel s (.idle none w)) :
    Rel (posedge s i) (Phase.idleStep w i) := by
  have hw : wHandshake s i = (w.isNone && (i.wvalid && !i.arvalid)) := wHandshake_idle h
  have haw : awHandshake s i = (i.awvalid && !i.arvalid) := by
    simp [awHandshake, awready, h.aw, h.isIdle, Phase.awHeld, Phase.isIdle]
  have har : arHandshake s i = (w.isNone && (i.arvalid && !i.awvalid && !i.wvalid)) := by
    simp only [arHandshake, arready, h.aw, h.w, h.isIdle, Phase.awHeld, Phase.wHeld, Phase.isIdle]
    cases w <;> cases i.arvalid <;> cases i.awvalid <;> cases i.wvalid <;> rfl
  have hstep : posedge s i =
      if arHandshake s i then idleAr i (idleW s i (idleAw s i s)) else idleW s i (idleAw s i s) := by
    have hboth : (s.awPending && s.wPending) = false := by rw [h.aw]; rfl
    simp only [posedge, h.code, Phase.code, stIdle, respDone_quiet h.bvalid h.rvalid, hboth, Bool.false_eq_true,
      if_false]
  rw [hstep, Phase.idleStep, ← haw, ← har]
  cases hawv : awHandshake s i with
  | true =>
    have harv : arHandshake s i = false := by
      rw [haw, Bool.and_eq_true] at hawv
      rw [har, hawv.1]
      simp
    rw [harv, if_neg Bool.false_ne_true, if_pos rfl]
    exact rel_startWrite h hawv
  | false =>
    have ht : idleAw s i s = s := by rw [idleAw, hawv]; rfl
    rw [ht, if_neg Bool.false_ne_true]
    cases harv : arHandshake s i with
    | true =>
      rw [har] at harv
      simp only [Bool.and_eq_true, Option.isNone_iff_eq_none, Bool.not_eq_true'] at harv
      obtain ⟨rfl, -, hwv⟩ := harv
      have hno : idleW s i s = s := by rw [idleW, hw, hwv]; rfl
      rw [hno]
      exact rel_startRead h
    | false => exact rel_idleW hw h rel_setW_idle

/-- Related registers load related registers. -/
theorem rel_posedge {ph : Phase P} (h : Rel s ph) (i : In P) : Rel (posedge s i) (ph.step i) := by
  cases ph with
  | idle aw w =>
    cases aw with
    | none => exact rel_idleStep h
    | some q =>
      cases w with
      | none => exact rel_awaitW h
      | some v => exact rel_launch h
  | err q w => exact rel_err h
  | wapb q w en => exact rel_wapb h
  | wresp b => exact rel_wresp h
  | rapb q en => exact rel_rapb h
  | rresp r => exact rel_rresp h

end

/-! ### Runs -/

/-- The registers of the bridge simulate the transaction machine. -/
theorem bridge_simulation (P : Params) : Simulation (bridge P) (engine P) Rel where
  out := fun i h => out_rel h i
  step := fun i h => rel_posedge h i

theorem rel_reset {s : State P} (h : IsReset s) : Rel s (.idle none none) := by
  obtain ⟨s₀, rfl⟩ := h
  exact ⟨fun _ hm => (by cases hm), rfl, rfl, rfl, fun x => (by cases x <;> rfl), rfl, rfl, fun _ hm => (by cases hm),
    fun _ hm => (by cases hm)⟩

theorem Reachable.rel {s : State P} (h : Reachable s) : ∃ ph, Rel s ph :=
  (bridge_simulation P).reachable (fun _ hs => ⟨_, rel_reset hs⟩) h

theorem Reachable.posedge {s : State P} (h : Reachable s) (i : In P) : Reachable (posedge s i) :=
  Machine.ReachableUnder.step h trivial

theorem Reachable.run {s : State P} (h : Reachable s) (is : List (In P)) : Reachable ((bridge P).run s is) :=
  Machine.ReachableUnder.run h (fun _ _ => trivial)

theorem trace_eq {s : State P} {ph : Phase P} (h : Rel s ph) (is : List (In P)) :
    (bridge P).trace s is = (engine P).trace ph is :=
  (bridge_simulation P).trace_eq h is

theorem rel_run {s : State P} {ph : Phase P} (h : Rel s ph) (is : List (In P)) :
    Rel ((bridge P).run s is) ((engine P).run ph is) :=
  (bridge_simulation P).run h is

end AxiApb.Simple
