import AxiApb.SimpleRefine

/-!
# Where the single-beat bridge stalls

Two kinds of states of the bridge are left by no input.  A rejected write whose W beat has not been accepted by the
AW handshake is never answered, as `WREADY` is driven in `ST_IDLE` only (`rejected_answered_iff`).  While a read is
requested, a write of which one half is held stays half accepted, and the read is not accepted either
(`read_accepted_iff`).
-/

namespace AxiApb.Simple

open Clocked

variable {P : Params}

/-! ### Events of a phase -/

theorem bTaken_out (ph : Phase P) (i : In P) : bTaken (i, ph.out i) = if i.bready then ph.b.toList else [] := rfl

theorem wTaken_out (ph : Phase P) (i : In P) :
    wTaken (i, ph.out i) = if i.wvalid && (ph.isIdle && (!ph.wHeld && !i.arvalid)) then [i.wBeat] else [] := rfl

theorem rTaken_out (ph : Phase P) (i : In P) : rTaken (i, ph.out i) = if i.rready then ph.r.toList else [] := rfl

theorem arTaken_out (ph : Phase P) (i : In P) :
    arTaken (i, ph.out i) = (i.arvalid && (ph.isIdle && (!ph.awHeld && !ph.wHeld && !i.awvalid && !i.wvalid))) := rfl

/-- The transfer that completes in a phase. -/
def Phase.done : Phase P → In P → List (Xfer P)
  | wapb q w true, i =>
    if i.pready q.port then [⟨q.port, writeCtrl q w, i.prdata q.port, i.pslverr q.port⟩] else []
  | rapb q true, i => if i.pready q.port then [⟨q.port, readCtrl q, i.prdata q.port, i.pslverr q.port⟩] else []
  | _, _ => []

theorem xferTaken_out (ph : Phase P) (i : In P) : xferTaken (i, ph.out i) = ph.done i := by
  have hapb : ∀ x, (ph.out i).apb x = ph.apb x := fun x => by cases x <;> rfl
  cases ph with
  | wapb q w en =>
    rw [xferTaken_drive (y := q.port) (k := writeCtrl q w) hapb]
    cases en <;> rfl
  | rapb q en =>
    rw [xferTaken_drive (y := q.port) (k := readCtrl q) hapb]
    cases en <;> rfl
  | idle | err | wresp | rresp => exact xferTaken_quiet hapb

section
variable {s : State P} {a : In P} {is : List (In P)}

/-- An AW handshake finds the bridge in its idle phase without an AW. -/
theorem rel_of_aw (hs : Reachable s) (haw : awHandshake s a = true) :
    a.arvalid = false ∧ ∃ w, Rel s (.idle none w) ∧ Rel (posedge s a) (.startWrite a.awReq (Phase.takeW w a)) := by
  obtain ⟨ph, hr⟩ := hs.rel
  simp only [awHandshake, awready, hr.isIdle, hr.aw, Bool.and_eq_true, Bool.not_eq_true'] at haw
  obtain ⟨hv, hidle, hheld, har⟩ := haw
  cases ph with
  | idle aw w =>
    cases aw with
    | none =>
      have hstep := rel_posedge hr a
      rw [Phase.step, Phase.idleStep, hv, har] at hstep
      exact ⟨har, w, hr, hstep⟩
    | some q => cases hheld
  | _ => cases hidle

/-! ### Rejected writes -/

/-- The continuation offers a W beat, takes a response and asks for no read. -/
def Draining (j : In P) : Prop := j.wvalid = true ∧ j.arvalid = false ∧ j.bready = true

/-- The write `a` that was accepted at `s` can be answered after the inputs `is`: its W beat is accepted at last, and
its `DECERR` is returned. -/
def Answerable (s : State P) (a : In P) (is : List (In P)) : Prop :=
  ∃ js, (∀ j ∈ js, Draining j) ∧ (s.wPending = true ∨ wBeats ((bridge P).trace s (a :: is ++ js)) ≠ []) ∧
    bBeats ((bridge P).trace ((bridge P).run s (a :: is)) js) = [⟨a.awid, respDecerr⟩]

/-- A rejected write without a W beat waits for ever. -/
theorem err_absorbs (q : Req P) (is : List (In P)) :
    (engine P).run (.err q none) is = .err q none ∧ bBeats ((engine P).trace (.err q none) is) = [] := by
  induction is with
  | nil => exact ⟨rfl, rfl⟩
  | cons i is ih =>
    refine ⟨ih.1, ?_⟩
    rw [Machine.trace_cons, bBeats, List.flatMap_cons]
    show bTaken (i, (Phase.err q none).out i) ++ bBeats ((engine P).trace (.err q none) is) = []
    rw [ih.2, bTaken_out]
    simp [Phase.b]

/-- A rejected write with its W beat is on its way to its answer. -/
private theorem err_run {q : Req P} {v : WBeat P}
    (hopen : ∀ c ∈ (engine P).trace (.err q (some v)) is, bTaken c = []) :
    (engine P).run (.err q (some v)) is = .err q (some v) ∨
      (engine P).run (.err q (some v)) is = .wresp (some ⟨q.id, respDecerr⟩) := by
  refine Machine.run_while (I := fun ph => ph = .err q (some v) ∨ ph = .wresp (some ⟨q.id, respDecerr⟩))
    (fun ph i h hb => ?_) (Or.inl rfl) hopen
  rcases h with rfl | rfl
  · exact Or.inr rfl
  · have hready : i.bready = false := by
      change bTaken (i, (Phase.wresp _).out i) = [] at hb
      rw [bTaken_out] at hb
      cases hi : i.bready with
      | true => simp [hi, Phase.b] at hb
      | false => rfl
    exact Or.inr (if_neg (by simp [hready]))

/-- The inputs of a master that offers a W beat to partners that are ready. -/
private def drain (P : Params) : In P := { In.ready P with wvalid := true }

private theorem draining_drain : Draining (drain P) := ⟨rfl, rfl, rfl⟩

private theorem err_answers {q : Req P} {v : WBeat P}
    (hopen : ∀ c ∈ (engine P).trace (.err q (some v)) is, bTaken c = []) :
    ∃ js, (∀ j ∈ js, Draining j) ∧
      bBeats ((engine P).trace ((engine P).run (.err q (some v)) is) js) = [⟨q.id, respDecerr⟩] := by
  rcases err_run hopen with h | h
  · refine ⟨[drain P, drain P], ?_, ?_⟩
    · simp [draining_drain]
    · rw [h]
      rfl
  · refine ⟨[drain P], ?_, ?_⟩
    · simp [draining_drain]
    · rw [h]
      rfl

/-- A rejected write can be answered just if its W beat was accepted before its AW handshake or is accepted with it. -/
theorem rejected_answered_iff (hs : Reachable s) (haw : awHandshake s a = true)
    (herr : paramErr P a.awlen a.awsize = true)
    (hopen : ∀ c ∈ (bridge P).trace (posedge s a) is, bTaken c = []) :
    Answerable s a is ↔ s.wPending = true ∨ a.wvalid = true := by
  obtain ⟨har, w, hr, hr'⟩ := rel_of_aw hs haw
  have hq : ¬ a.awReq.Single := by
    rintro ⟨hlen, hsize⟩
    have h1 : a.awlen = 0#8 := hlen
    have h2 : a.awsize = P.expectedAxsize := hsize
    simp [paramErr, h1, h2] at herr
  rw [Phase.startWrite, if_neg hq] at hr'
  rw [trace_eq hr'] at hopen
  have hrun : ∀ js, (bridge P).trace ((bridge P).run s (a :: is)) js =
      (engine P).trace ((engine P).run (.err a.awReq (Phase.takeW w a)) is) js := fun js => trace_eq (rel_run hr' is) js
  have hfirst : wTaken (a, out s a) = if a.wvalid && !w.isSome then [a.wBeat] else [] := by
    rw [out_rel hr, wTaken_out, har]
    simp [Phase.isIdle, Phase.wHeld]
  have hpend : s.wPending = w.isSome := hr.w
  have htake : Phase.takeW w a = if w.isNone && a.wvalid then some a.wBeat else w := by
    rw [Phase.takeW, har, Bool.not_false, Bool.and_true]
  constructor
  · rintro ⟨js, -, -, hb⟩
    rw [hpend]
    by_contra hno
    rw [not_or, Bool.not_eq_true, Bool.not_eq_true] at hno
    have hnone : Phase.takeW w a = none := by
      rw [htake, hno.2, Bool.and_false, if_neg Bool.false_ne_true]
      simpa using hno.1
    rw [hrun, hnone, (err_absorbs a.awReq is).1, (err_absorbs a.awReq js).2] at hb
    cases hb
  · intro hor
    have hsome : ∃ v, Phase.takeW w a = some v := by
      cases w with
      | some v => exact ⟨v, rfl⟩
      | none =>
        have hv : a.wvalid = true := by simpa [hpend] using hor
        exact ⟨a.wBeat, by rw [htake, hv]; rfl⟩
    obtain ⟨v, hv⟩ := hsome
    rw [hv] at hopen hrun
    obtain ⟨js, hjs, hb⟩ := err_answers hopen
    refine ⟨js, hjs, ?_, by rw [hrun]; exact hb⟩
    rw [hpend]
    cases w with
    | some v => exact Or.inl rfl
    | none =>
      right
      have hv : a.wvalid = true := by simpa [hpend] using hor
      show wTaken (a, out s a) ++ _ ≠ []
      rw [hfirst, hv]
      simp

end

/-- A write of two beats to port 0, whose first W beat comes with its AW. -/
theorem rejected_answered_iff_with_w :
    let a := ((In.ready (contract 4)).withAw ⟨5, 0x1000, 1, 0b011, 0b01, 0⟩).withW ⟨7, 0xff, false⟩
    Answerable (State.zero _) a [] ↔ (State.zero (contract 4)).wPending = true ∨ a.wvalid = true :=
  rejected_answered_iff (reachable_zero _) (by decide) (by decide) (by decide)

/-- A write of two beats whose AW is accepted before its first W beat is there. -/
theorem rejected_not_answered :
    ¬ ∀ (s : State (contract 4)) a is, Reachable s → awHandshake s a = true →
      paramErr (contract 4) a.awlen a.awsize = true → (∀ c ∈ (bridge _).trace (posedge s a) is, bTaken c = []) →
      Answerable s a is := by
  intro h
  let a := (In.ready (contract 4)).withAw ⟨5, 0x1000, 1, 0b011, 0b01, 0⟩
  obtain ⟨js, -, -, hb⟩ := h (State.zero _) a [] (reachable_zero _) (by decide) (by decide) (by decide)
  have hr : Rel (posedge (State.zero _) a) (.err a.awReq none) := rel_posedge (rel_reset (isReset_zero _)) a
  have hrun := trace_eq (rel_run hr []) js
  change bBeats ((bridge (contract 4)).trace ((bridge (contract 4)).run (posedge (State.zero _) a) []) js) = _ at hb
  rw [hrun, Machine.run_nil, (err_absorbs a.awReq js).2] at hb
  cases hb

/-! ### Reads during a write -/

/-- The read `q` can be accepted while it is requested from now on. -/
def Acceptable (s : State P) (q : Req P) : Prop :=
  ∃ js, (∀ j ∈ js, j.arvalid = true ∧ j.arReq = q) ∧ ∃ c ∈ (bridge P).trace s js, arTaken c = true

/-- One half of a write is held, or a rejected write waits for its W beat. -/
def Phase.Half : Phase P → Prop
  | idle aw w => aw.isSome ≠ w.isSome
  | err _ w => w = none
  | _ => False

theorem half_iff {s : State P} {ph : Phase P} (h : Rel s ph) : ph.Half ↔ s.awPending ≠ s.wPending := by
  rw [h.aw, h.w]
  cases ph with
  | err q w => cases w <;> simp [Phase.Half, Phase.awHeld, Phase.wHeld]
  | idle aw w => rfl
  | _ => simp [Phase.Half, Phase.awHeld, Phase.wHeld]

/-- Half a write stays as it is while a read is requested. -/
theorem half_absorbs {ph : Phase P} {js : List (In P)} (h : ph.Half) (hjs : ∀ j ∈ js, j.arvalid = true) :
    ∀ c ∈ (engine P).trace ph js, arTaken c = false := by
  refine Machine.trace_invariant (I := Phase.Half) (fun ph i hi h => ?_) h hjs
  -- `ARREADY` wants both flags clear, and outside `ST_IDLE` nothing is accepted
  have hno : arTaken (i, ph.out i) = false := by
    rw [arTaken_out]
    cases ph with
    | idle aw w =>
      have hne : aw.isSome ≠ w.isSome := h
      cases aw <;> cases w <;> simp_all [Phase.awHeld, Phase.wHeld]
    | _ => simp [Phase.isIdle]
  refine ⟨hno, ?_⟩
  -- `AWREADY` and `WREADY` want `ARVALID` low
  have htake : ∀ w, Phase.takeW w i = w := by
    intro w
    simp [Phase.takeW, hi]
  cases ph with
  | idle aw w =>
    have hne : aw.isSome ≠ w.isSome := h
    cases aw with
    | none =>
      cases w with
      | none => exact absurd rfl hne
      | some v =>
        have hstep : (Phase.idle none (some v)).step i = .idle none (some v) := by
          simp [Phase.step, Phase.idleStep, hi, htake]
        show ((Phase.idle none (some v)).step i).Half
        rw [hstep]
        exact h
    | some q =>
      cases w with
      | none =>
        have hstep : (Phase.idle (some q) none).step i = .idle (some q) none := by rw [Phase.step, htake]
        show ((Phase.idle (some q) none).step i).Half
        rw [hstep]
        exact h
      | some v => exact absurd rfl hne
  | err q w =>
    have hw : w = none := h
    subst hw
    exact h
  | _ => exact h.elim

/-- Ready partners bring a bridge without half a write to its next read. -/
def Served (ph : Phase P) (q : Req P) : Prop :=
  ∃ js, (∀ j ∈ js, j.arvalid = true ∧ j.arReq = q) ∧ ∃ c ∈ (engine P).trace ph js, arTaken c = true

private theorem served_of_step {ph : Phase P} {q : Req P} (h : Served (ph.step ((In.ready P).withAr q)) q) :
    Served ph q := by
  obtain ⟨js, hjs, c, hc, htaken⟩ := h
  refine ⟨(In.ready P).withAr q :: js, ?_, c, List.mem_cons_of_mem _ hc, htaken⟩
  intro j hj
  rcases List.mem_cons.1 hj with rfl | hj
  · exact ⟨rfl, rfl⟩
  · exact hjs j hj

private theorem served_idle (q : Req P) : Served (.idle none none) q :=
  ⟨[(In.ready P).withAr q], by simp [In.withAr, In.arReq], _, List.mem_singleton.2 rfl, rfl⟩

-- One lemma for each phase, from the last one back: the served phase is one or two edges away.
private theorem served_wresp (b : Option (BBeat P)) (q : Req P) : Served (.wresp b) q := by
  have hnone : Served (.wresp none) q := served_of_step (served_idle q)
  cases b with
  | none => exact hnone
  | some v => exact served_of_step hnone

private theorem served_rresp (r : Option (RBeat P)) (q : Req P) : Served (.rresp r) q := by
  have hnone : Served (.rresp none) q := served_of_step (served_idle q)
  cases r with
  | none => exact hnone
  | some v => exact served_of_step hnone

private theorem pready_ready (q : Req P) (x : Bool) : ((In.ready P).withAr q).pready x = true := by
  cases x <;> rfl

private theorem served_wapb (q' : Req P) (w : WBeat P) (en : Bool) (q : Req P) : Served (.wapb q' w en) q := by
  have htrue : Served (.wapb q' w true) q := by
    apply served_of_step
    rw [Phase.step, pready_ready]
    exact served_wresp _ q
  cases en with
  | true => exact htrue
  | false => exact served_of_step htrue

private theorem served_rapb (q' : Req P) (en : Bool) (q : Req P) : Served (.rapb q' en) q := by
  have htrue : Served (.rapb q' true) q := by
    apply served_of_step
    rw [Phase.step, pready_ready]
    exact served_rresp _ q
  cases en with
  | true => exact htrue
  | false => exact served_of_step htrue

/-- Every phase without half a write gets to the read. -/
theorem served_of_not_half {ph : Phase P} (h : ¬ ph.Half) (q : Req P) : Served ph q := by
  cases ph with
  | idle aw w =>
    have he : aw.isSome = w.isSome := not_not.1 h
    cases aw with
    | none =>
      cases w with
      | none => exact served_idle q
      | some v => cases he
    | some q' =>
      cases w with
      | none => cases he
      | some v => exact served_of_step (served_wapb q' v false q)
  | err q' w =>
    cases w with
    | none => exact absurd rfl h
    | some v => exact served_of_step (served_wresp _ q)
  | wapb q' w en => exact served_wapb q' w en q
  | wresp b => exact served_wresp b q
  | rapb q' en => exact served_rapb q' en q
  | rresp r => exact served_rresp r q

private theorem not_served_of_half {ph : Phase P} (h : ph.Half) (q : Req P) : ¬ Served ph q := by
  rintro ⟨js, hjs, c, hc, htaken⟩
  rw [half_absorbs h (fun j hj => (hjs j hj).1) c hc] at htaken
  cases htaken

private theorem acceptable_rel {s : State P} {ph : Phase P} (h : Rel s ph) (q : Req P) :
    Acceptable s q ↔ Served ph q := by
  unfold Acceptable Served
  simp only [trace_eq h]

/-- A read that is requested from now on can be accepted just if none or both of the halves of a write are held. -/
theorem read_accepted_iff {s : State P} (hs : Reachable s) (q : Req P) :
    Acceptable s q ↔ s.awPending = s.wPending := by
  obtain ⟨ph, hr⟩ := hs.rel
  rw [acceptable_rel hr, ← not_iff_not, ← ne_eq, ← half_iff hr]
  constructor
  · intro h
    by_contra hhalf
    exact h (served_of_not_half hhalf q)
  · exact fun h => not_served_of_half h q

theorem read_accepted_iff_zero :
    Acceptable (State.zero (contract 4)) ⟨5, 0x1000, 0, 0b011, 0b01, 0⟩ ↔
      (State.zero (contract 4)).awPending = (State.zero (contract 4)).wPending :=
  read_accepted_iff (reachable_zero _) _

/-- The master asks for no read while it offers a half of a write. -/
def Serialized (i : In P) : Prop := i.arvalid = true → i.awvalid = false ∧ i.wvalid = false

/-- A read that is requested after the AW of a write was accepted and before its W beat is offered. -/
theorem read_not_accepted :
    ¬ ∀ (s : State (contract 4)) q, (bridge _).ReachableUnder IsReset Serialized s → Acceptable s q := by
  intro h
  let a := (In.ready (contract 4)).withAw ⟨5, 0x1000, 0, 0b011, 0b01, 0⟩
  have hr : Rel (posedge (State.zero _) a) (.idle (some a.awReq) none) := rel_posedge (rel_reset (isReset_zero _)) a
  have henv : ∀ i ∈ [a], Serialized i := by
    intro i hi har
    rw [List.mem_singleton.1 hi] at har
    cases har
  have hacc := h (posedge (State.zero _) a) ⟨6, 0x2000, 0, 0b011, 0b01, 0⟩ ⟨_, [a], isReset_zero _, henv, rfl⟩
  rw [acceptable_rel hr] at hacc
  exact not_served_of_half (by simp [Phase.Half]) _ hacc

end AxiApb.Simple
