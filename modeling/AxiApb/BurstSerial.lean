import AxiApb.BurstTrace

/-!
# One transaction at a time

In every state that a run from reset reaches the burst bridge serves one transaction at most, and a response that is
offered stays as it is until it is accepted (`one_outstanding`).  The read buffer needs a word of its own: it is full
just in the phase that returns a beat (`fifo_step`), although a write request does not clear it.  The counters of the
beats stay within the length of the burst (`counters`).
-/

namespace AxiApb.Burst

open Clocked

variable {P : Params}

/-! ### The read buffer -/

/-- A read beat waits to be returned. -/
def Phase.buffered : Phase P → Bool
  | rbuf .. => true
  | _ => false

section
variable {s : State P} {ph : Phase P} {i : In P}

private theorem rfifoValid_next (s : State P) (i : In P) : (txnBlock s i).rfifoValid =
    if s.rvalid && i.rready then false
    else if s.apbState == .access && preadySel s i && !s.axiIsWrite then true
    else if arHandshake s i && !awHandshake s i then false
    else s.rfifoValid := by
  have hreq : (txnRequest s i s.toTxnRegs).rfifoValid =
      if arHandshake s i && !awHandshake s i then false else s.rfifoValid := by
    unfold txnRequest
    cases awHandshake s i <;> cases arHandshake s i <;> rfl
  have hw : ∀ t, (txnWdata s i t).rfifoValid = t.rfifoValid := by
    intro t
    unfold txnWdata
    split <;> rfl
  have hapb : ∀ t, (txnApb s i t).rfifoValid =
      if s.apbState == .access && preadySel s i && !s.axiIsWrite then true else t.rfifoValid := by
    intro t
    unfold txnApb
    cases s.apbState == .access && preadySel s i <;> cases s.axiIsWrite <;> rfl
  have hresp : ∀ t, (txnResp s i t).rfifoValid = if s.rvalid && i.rready then false else t.rfifoValid := by
    intro t
    unfold txnResp
    cases s.rvalid && i.rready <;> cases s.bvalid && i.bready <;> rfl
  rw [txnBlock, hresp, hapb, hw, hreq]

/-- While a request is served no other one clears the buffer. -/
private theorem rfifoValid_busy (hr : Rel s ph) (hidle : ph.isIdle = false) : (posedge s i).rfifoValid =
    if s.rvalid && i.rready then false
    else if s.apbState == .access && preadySel s i && !s.axiIsWrite then true else s.rfifoValid := by
  have har : arHandshake s i = false := by simp [arHandshake, arready, idleForNew_rel hr, hidle]
  show (txnBlock s i).rfifoValid = _
  rw [rfifoValid_next, har, Bool.false_and, if_neg Bool.false_ne_true]

/-- The transfers of a write leave the buffer alone. -/
private theorem rfifoValid_write (hr : Rel s ph) (hidle : ph.isIdle = false) (hw : s.axiIsWrite = true)
    (hnone : ph.r = none) : (posedge s i).rfifoValid = s.rfifoValid := by
  have hv : s.rvalid = false := by rw [hr.rvalid, hnone]; rfl
  rw [rfifoValid_busy hr hidle, hv, hw, Bool.not_true, Bool.and_false]
  rfl

private theorem fifo_step (hr : Rel s ph) (h : s.rfifoValid = ph.buffered) (i : In P) :
    (posedge s i).rfifoValid = (ph.step i).buffered := by
  have hnext := (rel_posedge hr i).txn
  have ht := hr.txn
  cases ph with
  | idle =>
    have hv : s.rvalid = false := hr.rvalid
    have ha : (s.apbState == .access) = false := by rw [hr.apbState]; rfl
    have hstay : (posedge s i).rfifoValid = false := by
      show (txnBlock s i).rfifoValid = false
      rw [rfifoValid_next, hv, ha, h]
      simp [Phase.buffered]
    rw [hstay, Phase.step, Phase.startRead]
    repeat' split
    all_goals rfl
  | wdata q ws es =>
    rw [rfifoValid_write hr rfl ht.isWrite rfl, h, Phase.step, Phase.takeW]
    repeat' split
    all_goals rfl
  | wapb q ws w es en =>
    rw [rfifoValid_write hr rfl ht.isWrite rfl, h]
    cases en with
    | false => rfl
    | true =>
      rw [Phase.step, Phase.wDone]
      repeat' split
      all_goals rfl
  | wresp q ws es v =>
    rw [rfifoValid_write hr rfl ht.isWrite rfl, h]
    cases v with
    | false => rfl
    | true => rw [Phase.step]; split <;> rfl
  | rfetch q ds => exact hnext.2
  | rapb q ds en =>
    cases en with
    | false => exact hnext.2
    | true =>
      rw [Phase.step] at hnext ⊢
      cases hp : i.pready q.port with
      | true =>
        rw [hp, if_pos rfl] at hnext
        exact hnext.2.1
      | false =>
        rw [hp] at hnext
        exact hnext.2
  | rbuf q ds d v =>
    cases v with
    | false => exact hnext.2.1
    | true =>
      have hv : s.rvalid = true := hr.rvalid
      have ha : (s.apbState == .access) = false := by rw [hr.apbState]; rfl
      rw [rfifoValid_busy hr rfl, hv, ha, h, Phase.step]
      cases i.rready with
      | true =>
        rw [Bool.and_self, if_pos rfl, if_pos rfl]
        split <;> rfl
      | false => rfl
  | rerr q n v =>
    have ha : (s.apbState == .access) = false := by rw [hr.apbState]; rfl
    have hstay : (posedge s i).rfifoValid = false := by
      rw [rfifoValid_busy hr rfl, ha, h]
      simp [Phase.buffered]
    rw [hstay]
    cases v with
    | false => rfl
    | true =>
      rw [Phase.step]
      repeat' split
      all_goals rfl

end

/-! ### The request in flight -/

/-- A request that was accepted, of which kind it is, and the W beats accepted since. -/
structure Served (P : Params) where
  write : Bool
  req : Req P
  ws : List (WBeat P)

/-- The response of a cycle ends its transaction: a B beat is accepted, or an R beat with `RLAST`. -/
def answered (c : Cycle P) : Bool := !(bTaken c).isEmpty || (rTaken c).any (·.rlast)

def flightStep (v : Option (Served P)) (c : Cycle P) : Option (Served P) :=
  if awTaken c then some ⟨true, c.1.awReq, []⟩
  else if arTaken c then some ⟨false, c.1.arReq, []⟩
  else if answered c then none
  else v.map fun u => { u with ws := u.ws ++ wTaken c }

/-- The transaction that is in flight after the handshakes of a trace. -/
def inFlight (tr : List (Cycle P)) : Option (Served P) := tr.foldl flightStep none

/-- The transaction that a phase is about. -/
def Phase.served : Phase P → Option (Served P)
  | idle => none
  | wdata q ws _ => some ⟨true, q, ws⟩
  | wapb q ws w _ _ => some ⟨true, q, ws ++ [w]⟩
  | wresp q ws _ _ => some ⟨true, q, ws⟩
  | rfetch q _ => some ⟨false, q, []⟩
  | rapb q _ _ => some ⟨false, q, []⟩
  | rbuf q _ _ _ => some ⟨false, q, []⟩
  | rerr q _ _ => some ⟨false, q, []⟩

section
variable {s : State P} {ph : Phase P} {i : In P}

private theorem answered_out (ph : Phase P) (i : In P) : answered (i, ph.out i) =
    (i.bready && ph.b.isSome || i.rready && ph.r.any (·.rlast)) := by
  rw [answered, bTaken_out, rTaken_out]
  cases i.bready <;> cases i.rready <;> cases ph.b <;> cases ph.r <;> simp

private theorem flightStep_idle (v : Option (Served P)) (i : In P) :
    flightStep v (i, (Phase.idle : Phase P).out i) =
      if i.awvalid && !i.arvalid then some ⟨true, i.awReq, []⟩
      else if i.arvalid && !i.awvalid then some ⟨false, i.arReq, []⟩
      else v := by
  have hv : (v.map fun u => { u with ws := u.ws ++ [] }) = v := by
    cases v with
    | none => rfl
    | some u => simp
  have ha : answered (i, (Phase.idle : Phase P).out i) = false := by simp [answered_out, Phase.b, Phase.r]
  rw [flightStep, ha, wTaken_idle, hv]
  rfl

private theorem flightStep_busy (v : Option (Served P)) (h : ph.isIdle = false) (i : In P) :
    flightStep v (i, ph.out i) =
      if i.bready && ph.b.isSome || i.rready && ph.r.any (·.rlast) then none
      else v.map fun u => { u with ws := u.ws ++ if i.wvalid && ph.wready then [i.wBeat] else [] } := by
  rw [flightStep, awTaken_busy h, arTaken_busy h, answered_out, wTaken_out]
  rfl

/-- No W beat, and no end of the transaction. -/
private theorem flightStep_stay (v : Option (Served P)) (h : ph.isIdle = false) (hw : ph.wready = false)
    (hend : (i.bready && ph.b.isSome || i.rready && ph.r.any (·.rlast)) = false) :
    flightStep v (i, ph.out i) = v := by
  rw [flightStep_busy v h, hend, hw]
  cases v with
  | none => rfl
  | some u => simp

private theorem flightStep_end (v : Option (Served P)) (h : ph.isIdle = false)
    (hend : (i.bready && ph.b.isSome || i.rready && ph.r.any (·.rlast)) = true) :
    flightStep v (i, ph.out i) = none := by
  rw [flightStep_busy v h, hend, if_pos rfl]

/-- The last R beat ends a read. -/
private theorem flightStep_beat {r : RBeat P} (v : Option (Served P)) (h : ph.isIdle = false) (hw : ph.wready = false)
    (hb : ph.b = none) (hr : ph.r = some r) :
    flightStep v (i, ph.out i) = if i.rready && r.rlast then none else v := by
  have hend : (i.bready && ph.b.isSome || i.rready && ph.r.any (·.rlast)) = (i.rready && r.rlast) := by
    simp [hb, hr]
  cases hl : i.rready && r.rlast with
  | true => exact flightStep_end v h (hend.trans hl)
  | false => exact flightStep_stay v h hw (hend.trans hl)

/-- A phase in which nothing is offered on B and R. -/
private theorem end_false (hb : ph.b = none) (hr : ph.r = none) :
    (i.bready && ph.b.isSome || i.rready && ph.r.any (·.rlast)) = false := by
  simp [hb, hr]

/-- The trace shows which transaction the machine serves. -/
theorem served_step (ph : Phase P) (i : In P) : flightStep ph.served (i, ph.out i) = (ph.step i).served := by
  cases ph with
  | idle =>
    rw [flightStep_idle, Phase.step, Phase.startRead]
    repeat' split
    all_goals rfl
  | wdata q ws es =>
    have hw : (Phase.wdata q ws es).wready = true := rfl
    rw [flightStep_busy _ rfl, end_false rfl rfl, if_neg Bool.false_ne_true, hw, Bool.and_true, Phase.step,
      Phase.takeW]
    cases i.wvalid with
    | true =>
      rw [if_pos rfl, if_pos rfl]
      repeat' split
      all_goals rfl
    | false => simp [Phase.served]
  | wapb q ws w es en =>
    rw [flightStep_stay _ rfl rfl (end_false rfl rfl)]
    cases en with
    | false => rfl
    | true =>
      rw [Phase.step, Phase.wDone]
      repeat' split
      all_goals rfl
  | wresp q ws es v =>
    cases v with
    | false => exact flightStep_stay _ rfl rfl (end_false rfl rfl)
    | true =>
      rw [Phase.step]
      cases hb : i.bready with
      | true => exact flightStep_end _ rfl (by rw [hb]; rfl)
      | false => exact flightStep_stay _ rfl rfl (by rw [hb]; simp [Phase.r])
  | rfetch q ds => exact flightStep_stay _ rfl rfl (end_false rfl rfl)
  | rapb q ds en =>
    rw [flightStep_stay _ rfl rfl (end_false rfl rfl)]
    cases en with
    | false => rfl
    | true => rw [Phase.step]; split <;> rfl
  | rbuf q ds d v =>
    cases v with
    | false => exact flightStep_stay _ rfl rfl (end_false rfl rfl)
    | true =>
      have hlast : (q.rBeat ds.length d).rlast = (ds.length == q.len.toNat) := rfl
      rw [flightStep_beat _ rfl rfl rfl rfl, hlast, Phase.step]
      cases i.rready with
      | false => rfl
      | true =>
        rw [Bool.true_and, if_pos rfl]
        split <;> rfl
  | rerr q n v =>
    cases v with
    | false => exact flightStep_stay _ rfl rfl (end_false rfl rfl)
    | true =>
      have hlast : (q.errBeat n).rlast = (n == q.len.toNat) := rfl
      rw [flightStep_beat _ rfl rfl rfl rfl, hlast, Phase.step]
      cases i.rready with
      | false => rfl
      | true =>
        rw [Bool.true_and, if_pos rfl]
        split <;> rfl

end

/-! ### Every reachable state -/

/-- After a run with trace `tr` to the state `s`. -/
structure OneOutstanding (tr : List (Cycle P)) (s : State P) : Prop where
  active : s.txnActive = (inFlight tr).isSome
  one_response : ¬ (s.bvalid = true ∧ s.rvalid = true)
  busy : ∀ i, s.txnActive = true ∨ s.bvalid = true ∨ s.rvalid = true → awready s i = false ∧ arready s i = false
  one_request : ∀ i, ¬ (awHandshake s i = true ∧ arHandshake s i = true)
  wready : wready s = true → ∃ q ws, inFlight tr = some ⟨true, q, ws⟩ ∧ (∀ w ∈ ws, w.wlast = false) ∧
    ws.length < q.len.toNat + 1
  idle : s.txnActive = false →
    s.apbState = .idle ∧ s.bvalid = false ∧ s.rvalid = false ∧ s.rfifoValid = false
  b_stable : ∀ i, s.bvalid = true → i.bready = false → (posedge s i).toBRegs = s.toBRegs
  r_stable : ∀ i, s.rvalid = true → i.rready = false → (posedge s i).toRRegs = s.toRRegs

/-- What a run from reset keeps: the phase, with the read buffer and the trace so far. -/
private structure Serial (tr : List (Cycle P)) (s : State P) (ph : Phase P) : Prop where
  rel : Rel s ph
  fifo : s.rfifoValid = ph.buffered
  served : inFlight tr = ph.served

private theorem serial_step {tr : List (Cycle P)} {s : State P} {ph : Phase P} (h : Serial tr s ph) (i : In P) :
    Serial (tr ++ [(i, out s i)]) (posedge s i) (ph.step i) where
  rel := rel_posedge h.rel i
  fifo := fifo_step h.rel h.fifo i
  served := by
    rw [inFlight, List.foldl_append, ← inFlight, h.served, out_rel h.rel]
    exact served_step ph i

private theorem serial_run {s₀ : State P} (h0 : IsReset s₀) (is : List (In P)) :
    ∃ ph, Serial ((bridge P).trace s₀ is) ((bridge P).run s₀ is) ph := by
  have hinit : Serial [] s₀ .idle := by
    refine ⟨rel_reset h0, ?_, rfl⟩
    obtain ⟨s, rfl⟩ := h0
    rfl
  exact Machine.track (M := bridge P) (I := fun tr s => ∃ ph, Serial tr s ph)
    (fun _ _ i ⟨ph, h⟩ _ => ⟨ph.step i, serial_step h i⟩) ⟨_, hinit⟩ (fun _ _ => trivial)

section
variable {tr : List (Cycle P)} {s : State P} {ph : Phase P}

private theorem active_rel (hr : Rel s ph) : s.txnActive = ph.served.isSome := by
  have ht := hr.txn
  cases ph with
  | idle => exact ht
  | wdata | wapb | wresp | rerr => exact ht.active
  | rfetch | rapb | rbuf => exact ht.1.active

private theorem served_idle (h : ph.served = none) : ph = .idle := by
  cases ph with
  | idle => rfl
  | _ => cases h

private theorem idle_of_active (hr : Rel s ph) (h : s.txnActive = false) : ph = .idle := by
  rw [active_rel hr, Option.isSome_eq_false_iff, Option.isNone_iff_eq_none] at h
  exact served_idle h

end

/-- Whatever a run from reset has accepted, one transaction is in flight at most, it owns the channels, and a response
stays until it is accepted. -/
theorem one_outstanding {s₀ : State P} (h0 : IsReset s₀) (is : List (In P)) :
    OneOutstanding ((bridge P).trace s₀ is) ((bridge P).run s₀ is) := by
  obtain ⟨ph, hs⟩ := serial_run h0 is
  generalize (bridge P).run s₀ is = s at hs
  generalize (bridge P).trace s₀ is = tr at hs
  have hr := hs.rel
  refine ⟨?_, ?_, ?_, ?_, ?_, ?_, ?_, ?_⟩
  · rw [active_rel hr, hs.served]
  · rintro ⟨hb, hrv⟩
    rw [hr.bvalid] at hb
    rw [hr.rvalid] at hrv
    cases ph with
    | wresp q ws es v => cases hrv
    | idle | wdata | wapb | rfetch | rapb | rbuf | rerr => cases hb
  · intro i h
    have hidle : idleForNew s = false := by
      rcases h with h | h | h <;> simp [idleForNew, busyWithResp, h]
    simp [awready, arready, hidle]
  · rintro i ⟨haw, har⟩
    simp only [awHandshake, awready, arHandshake, arready, Bool.and_eq_true, Bool.not_eq_true'] at haw har
    rw [haw.1] at har
    cases har.2.2
  · intro hw
    rw [wready_rel hr] at hw
    cases ph with
    | wdata q ws es =>
      obtain ⟨hl, hn⟩ := Req.wEnded_eq_false.1 hr.ok.1
      exact ⟨q, ws, hs.served, by simpa using hl, Nat.lt_succ_of_le hn⟩
    | idle | wapb | wresp | rfetch | rapb | rbuf | rerr => cases hw
  · intro h
    have hp : ph = .idle := idle_of_active hr h
    subst hp
    exact ⟨hr.apbState, hr.bvalid, hr.rvalid, hs.fifo⟩
  · intro i hb hi
    show bBlock s i = _
    simp [bBlock, hb, hi]
  · intro i hv hi
    show rBlock s i = _
    simp [rBlock, hv, hi]

/-- A write of two beats of which one was accepted. -/
theorem one_outstanding_write :
    let r := In.ready (contract 4)
    let is := [r.withAw ⟨5, 0x80001000, 1, 0b011, 0b01, 0b010⟩, r.withW ⟨7, 0xff, false⟩, r]
    OneOutstanding ((bridge _).trace (State.zero (contract 4)) is) ((bridge _).run (State.zero _) is) :=
  one_outstanding (isReset_zero _) _

/-! ### The counters and the read buffer -/

/-- In a state `s` with a transaction, after a run with trace `tr`. -/
structure Counts (tr : List (Cycle P)) (s : State P) : Prop where
  total : 1 ≤ s.beatsTotal.toNat ∧ s.beatsTotal.toNat ≤ 256
  index_le : s.beatIndex.toNat ≤ s.beatsTotal.toNat
  sent_le : s.beatsSent.toNat ≤ s.beatsTotal.toNat
  write_done : s.axiIsWrite = true → s.beatIndex = s.beatsTotal → s.wDone = true
  write_index : s.axiIsWrite = true → s.txnDecerr = false → ∃ q ws, inFlight tr = some ⟨true, q, ws⟩ ∧
    s.beatIndex.toNat + (if s.apbState = .idle then 0 else 1) = ws.length
  read_index : s.axiIsWrite = false → s.txnDecerr = false →
    s.beatIndex.toNat = s.beatsSent.toNat + if s.rfifoValid then 1 else 0
  rvalid_full : s.axiIsWrite = false → s.txnDecerr = false → s.rvalid = true → s.rfifoValid = true
  fetching : s.axiIsWrite = false → s.txnDecerr = false → s.apbState ≠ .idle →
    s.rfifoValid = false ∧ s.rvalid = false
  -- what was read stays until its R beat is accepted
  kept : s.axiIsWrite = false → s.txnDecerr = false → s.rfifoValid = true →
    ∀ i, (posedge s i).rdataFifo = s.rdataFifo ∧ (posedge s i).rrespFifo = s.rrespFifo

section
variable {tr : List (Cycle P)} {s : State P} {ph : Phase P} {q : Req P} {n m : Nat}

private theorem Holds.total_bounds {w : Bool} (h : Holds s.toTxnRegs q w) :
    1 ≤ s.beatsTotal.toNat ∧ s.beatsTotal.toNat ≤ 256 := by
  have hlen : q.len.toNat < 256 := q.len.isLt
  rw [h.total, Req.beats]
  omega

private theorem Holds.legal {w : Bool} (h : Holds s.toTxnRegs q w) (herr : s.txnDecerr = false) : q.Legal := by
  rw [h.decerr] at herr
  simpa using herr

/-- A write whose beats `ws` were accepted, `n` of them done with. -/
private theorem counts_write {ws : List (WBeat P)} {es : List Bool} (h : HoldsW s.toTxnRegs q ws es n)
    (hle : n ≤ q.beats) (hend : n = q.beats → q.wEnded ws = true) (hserved : inFlight tr = some ⟨true, q, ws⟩)
    (hlen : q.Legal → n + (if s.apbState = .idle then 0 else 1) = ws.length) : Counts tr s where
  total := h.total_bounds
  index_le := by rw [h.index, h.total]; exact hle
  sent_le := by rw [h.sent]; exact Nat.zero_le _
  write_done _ heq := by
    rw [h.ended]
    exact hend (by rw [← h.index, heq, h.total])
  write_index _ herr := ⟨q, ws, hserved, by rw [h.index]; exact hlen (h.legal herr)⟩
  read_index hw := by rw [h.isWrite] at hw; cases hw
  rvalid_full hw := by rw [h.isWrite] at hw; cases hw
  fetching hw := by rw [h.isWrite] at hw; cases hw
  kept hw := by rw [h.isWrite] at hw; cases hw

/-- A legal read with an empty buffer. -/
private theorem counts_fetch (hr : Rel s ph) (hnone : ph.r = none) (h : HoldsR s.toTxnRegs q n n)
    (hle : n ≤ q.len.toNat) (hfifo : s.rfifoValid = false) : Counts tr s where
  total := h.total_bounds
  index_le := by rw [h.index, h.total]; exact Nat.le_succ_of_le hle
  sent_le := by rw [h.sent, h.total]; exact Nat.le_succ_of_le hle
  write_done hw := by rw [h.isWrite] at hw; cases hw
  write_index hw := by rw [h.isWrite] at hw; cases hw
  read_index _ _ := by rw [h.index, h.sent, hfifo]; rfl
  rvalid_full _ _ hv := by rw [hr.rvalid, hnone] at hv; cases hv
  fetching _ _ _ := ⟨hfifo, by rw [hr.rvalid, hnone]; rfl⟩
  kept _ _ hv := by rw [hfifo] at hv; cases hv

/-- Without a transfer in its access phase the buffer keeps what it holds. -/
private theorem fifo_kept (ha : s.apbState = .idle) (i : In P) :
    (posedge s i).rdataFifo = s.rdataFifo ∧ (posedge s i).rrespFifo = s.rrespFifo := by
  have hreq : (txnRequest s i s.toTxnRegs).rdataFifo = s.rdataFifo ∧
      (txnRequest s i s.toTxnRegs).rrespFifo = s.rrespFifo := by
    unfold txnRequest
    cases awHandshake s i <;> cases arHandshake s i <;> exact ⟨rfl, rfl⟩
  have hw : ∀ t, (txnWdata s i t).rdataFifo = t.rdataFifo ∧ (txnWdata s i t).rrespFifo = t.rrespFifo := by
    intro t
    unfold txnWdata
    split <;> exact ⟨rfl, rfl⟩
  have hapb : ∀ t, txnApb s i t = t := by
    intro t
    rw [txnApb, ha]
    rfl
  have hresp : ∀ t, (txnResp s i t).rdataFifo = t.rdataFifo ∧ (txnResp s i t).rrespFifo = t.rrespFifo := by
    intro t
    unfold txnResp
    cases s.rvalid && i.rready <;> cases s.bvalid && i.bready <;> exact ⟨rfl, rfl⟩
  show (txnBlock s i).rdataFifo = _ ∧ (txnBlock s i).rrespFifo = _
  rw [txnBlock, hapb, (hresp _).1, (hresp _).2, (hw _).1, (hw _).2]
  exact hreq

private theorem counts_of (h : Serial tr s ph) (hact : s.txnActive = true) : Counts tr s := by
  have hr := h.rel
  have hok := hr.ok
  have ht := hr.txn
  have ha := hr.apbState
  have hserved := h.served
  cases ph with
  | idle => rw [show s.txnActive = false from ht] at hact; cases hact
  | wdata q ws es =>
    have hlt : ws.length ≤ q.len.toNat := (Req.wEnded_eq_false.1 hok.1).2
    refine counts_write ht (Nat.le_succ_of_le hlt) (fun heq => ?_) hserved (fun _ => by rw [ha]; rfl)
    rw [Req.beats] at heq
    omega
  | wapb q ws w es en =>
    have hlt : ws.length ≤ q.len.toNat := (Req.wEnded_eq_false.1 hok.2.1).2
    have hbusy : s.apbState ≠ .idle := by rw [ha]; cases en <;> simp [Phase.apbState]
    refine counts_write ht (Nat.le_succ_of_le hlt) (fun heq => ?_) hserved (fun _ => by simp [hbusy])
    rw [Req.beats] at heq
    omega
  | wresp q ws es v =>
    obtain ⟨⟨ws', w, rfl, hopen⟩, hend, -⟩ := hok
    have hlt : ws'.length ≤ q.len.toNat := (Req.wEnded_eq_false.1 hopen).2
    refine counts_write ht ?_ (fun _ => hend) hserved (fun _ => by rw [ha]; rfl)
    rw [List.length_append, Req.beats]
    exact Nat.succ_le_succ hlt
  | rfetch q ds => exact counts_fetch hr rfl ht.1 hok.2 ht.2
  | rapb q ds en => exact counts_fetch hr rfl ht.1 hok.2 ht.2
  | rbuf q ds d v =>
    obtain ⟨hh, hfull, -⟩ := ht
    refine ⟨hh.total_bounds, ?_, ?_, ?_, ?_, fun _ _ => ?_, fun _ _ _ => hfull, fun _ _ hne => absurd ha hne,
      fun _ _ _ => fifo_kept ha⟩
    · rw [hh.index, hh.total]
      exact Nat.succ_le_succ hok.2
    · rw [hh.sent, hh.total]
      exact Nat.le_succ_of_le hok.2
    · intro hw
      rw [hh.isWrite] at hw
      cases hw
    · intro hw
      rw [hh.isWrite] at hw
      cases hw
    · rw [hh.index, hh.sent, hfull]
      rfl
  | rerr q n v =>
    have herr : s.txnDecerr = true := by
      rw [ht.decerr, decide_eq_false hok.1]
      rfl
    refine ⟨ht.total_bounds, ?_, ?_, ?_, ?_, ?_, ?_, ?_, ?_⟩
    · rw [ht.index]
      exact Nat.zero_le _
    · rw [ht.sent, ht.total]
      exact Nat.le_succ_of_le hok.2
    · intro hw
      rw [ht.isWrite] at hw
      cases hw
    · intro hw
      rw [ht.isWrite] at hw
      cases hw
    all_goals
      intro _ hlegal
      rw [herr] at hlegal
      cases hlegal

end

/-- Whatever a run from reset has accepted, the counters stay in range and count the beats, and the read buffer is not
overwritten. -/
theorem counters {s₀ : State P} (h0 : IsReset s₀) (is : List (In P))
    (hact : ((bridge P).run s₀ is).txnActive = true) : Counts ((bridge P).trace s₀ is) ((bridge P).run s₀ is) := by
  obtain ⟨ph, hs⟩ := serial_run h0 is
  exact counts_of hs hact

/-- A write of 256 beats of which one is in transfer. -/
theorem counters_long_write :
    let r := In.ready (contract 4)
    let is := [r.withAw ⟨5, 0x80001000, 255, 0b011, 0b01, 0b010⟩, r.withW ⟨7, 0xff, false⟩, r]
    Counts ((bridge _).trace (State.zero (contract 4)) is) ((bridge _).run (State.zero _) is) :=
  counters (isReset_zero _) _ (by decide +kernel)

end AxiApb.Burst
