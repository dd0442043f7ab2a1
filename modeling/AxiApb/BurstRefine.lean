import AxiApb.BurstSpec

/-!
# The burst bridge refines the transaction machine

`Rel s ph` says what the registers hold while the transaction machine is in phase `ph`.  The four `always` blocks
are treated one after the other (`apbBlock_rel`, `bBlock_rel`, `rBlock_rel`, `txnBlock_rel`); together they give
`bridge_simulation`, and with it every run of the bridge from reset shows the trace of a run of `engine` from
`idle`.
-/

namespace AxiApb

open Clocked

variable {P : Params}

/-! ### Address arithmetic and the parameter check -/

theorem one_shiftLeft {w k : Nat} (n : BitVec k) : 1#w <<< n = BitVec.ofNat w (2 ^ n.toNat) := by
  apply BitVec.eq_of_toNat_eq
  rw [BitVec.shiftLeft_eq', BitVec.toNat_shiftLeft, BitVec.toNat_ofNat, BitVec.toNat_ofNat, Nat.shiftLeft_eq,
    Nat.mod_mul_mod, Nat.one_mul]

namespace Req

@[simp] theorem beatAddr_zero (q : Req P) : q.beatAddr 0 = q.addr := by
  simp [beatAddr]

theorem beatAddr_succ (q : Req P) (n : Nat) :
    q.beatAddr (n + 1) = if q.burst = burstIncr then q.beatAddr n + (1#_ <<< q.size) else q.beatAddr n := by
  unfold beatAddr
  by_cases h : q.burst = burstIncr
  · simp only [h, if_true, one_shiftLeft]
    rw [BitVec.add_assoc, ← BitVec.ofNat_add, Nat.succ_mul]
  · simp only [h, if_false]

private theorem maxOffset_eq (q : Req P) :
    Burst.maxOffset P q.len q.size = BitVec.ofNat _ (q.len.toNat * 2 ^ q.size.toNat) := by
  apply BitVec.eq_of_toNat_eq
  simp [Burst.maxOffset, BitVec.toNat_shiftLeft, Nat.shiftLeft_eq]

private theorem crossApb_eq (q : Req P) : Burst.crossApb q.addr q.len q.size q.burst =
    !decide ((q.beatAddr q.len.toNat).getLsbD P.apbAddrBit = q.port) := by
  unfold Burst.crossApb Burst.lastAddr beatAddr port
  by_cases h : q.burst = burstIncr
  · simp only [h, maxOffset_eq, if_true]
    cases q.addr.getLsbD P.apbAddrBit <;>
      cases (q.addr + BitVec.ofNat _ (q.len.toNat * 2 ^ q.size.toNat)).getLsbD P.apbAddrBit <;> rfl
  · simp only [h, if_false, beq_eq_false_iff_ne.2 h]
    simp

/-- The parameter check of the bridge rejects just the requests that are not legal. -/
theorem paramErr_eq (q : Req P) : Burst.paramErr q.addr q.len q.size q.burst = !decide q.Legal := by
  have hb : decide (q.burst > 0b01#2) = !decide (q.burst = burstFixed ∨ q.burst = burstIncr) := by
    generalize q.burst = b
    revert b; decide
  have hs : (q.size != P.expectedAxsize) = !decide (q.size = P.expectedAxsize) := rfl
  unfold Burst.paramErr
  rw [hb, hs, crossApb_eq, Bool.or_assoc, ← Bool.not_and, ← Bool.not_and, ← Bool.decide_and, ← Bool.decide_and]
  exact congrArg _ (decide_eq_decide.2 Iff.rfl)

/-! ### Lists of W beats -/

theorem wEnded_eq_false {q : Req P} {ws : List (WBeat P)} :
    q.wEnded ws = false ↔ ws.any (·.wlast) = false ∧ ws.length ≤ q.len.toNat := by
  rw [wEnded, Bool.or_eq_false_iff, decide_eq_false_iff_not, beats, Nat.not_le, Nat.lt_succ_iff]

theorem wEnded_concat {q : Req P} {ws : List (WBeat P)} (h : q.wEnded ws = false) (w : WBeat P) :
    q.wEnded (ws ++ [w]) = (w.wlast || ws.length == q.len.toNat) := by
  obtain ⟨hl, hn⟩ := wEnded_eq_false.1 h
  have hlen : decide (q.beats ≤ (ws ++ [w]).length) = (ws.length == q.len.toNat) := by
    rw [Bool.eq_iff_iff, decide_eq_true_iff, beq_iff_eq, List.length_append, beats]
    simp only [List.length_cons, List.length_nil]
    omega
  rw [wEnded, hlen, List.any_append, hl, Bool.false_or]
  simp

theorem malformed_concat (q : Req P) (ws : List (WBeat P)) (w : WBeat P) :
    q.malformed (ws ++ [w]) = (q.malformed ws || w.wlast != (ws.length == q.len.toNat)) := by
  simp [malformed, List.zipIdx_append]

end Req

namespace Burst

/-! ### What the registers hold -/

def ApbRegs.port (a : ApbRegs P) (x : Bool) : Port P := if x then a.port1 else a.port0

/-- The registers loaded by the address handshake. -/
structure Holds (s : TxnRegs P) (q : Req P) (write : Bool) : Prop where
  active : s.txnActive = true
  isWrite : s.axiIsWrite = write
  id : s.axiIdReg = q.id
  prot : s.axiProtReg = q.prot
  size : s.axiSizeReg = q.size
  burst : s.axiBurstReg = q.burst
  total : s.beatsTotal.toNat = q.beats
  sel : s.axiSelApb1 = q.port
  decerr : s.txnDecerr = !decide q.Legal

/-- The registers of a write with accepted beats `ws`, of which `n` are done with. -/
structure HoldsW (s : TxnRegs P) (q : Req P) (ws : List (WBeat P)) (es : List Bool) (n : Nat) : Prop
    extends Holds s q true where
  index : s.beatIndex.toNat = n
  sent : s.beatsSent = 0#9
  addr : q.Legal → s.axiAddrReg = q.beatAddr n
  ended : s.wDone = q.wEnded ws
  bad : s.wlastErr = q.malformed ws
  errs : s.pslverrAcc = es.contains true

/-- The registers of a read of which `n` beats were read from the port and `m` were returned. -/
structure HoldsR (s : TxnRegs P) (q : Req P) (n m : Nat) : Prop extends Holds s q false where
  index : s.beatIndex.toNat = n
  sent : s.beatsSent.toNat = m
  addr : q.Legal → s.axiAddrReg = q.beatAddr n

def Phase.apbState : Phase P → ApbState
  | wapb _ _ _ _ en => if en then .access else .setup
  | rapb _ _ en => if en then .access else .setup
  | _ => .idle

/-- The registers of the transaction block. -/
def TxnRel (s : TxnRegs P) : Phase P → Prop
  | .idle => s.txnActive = false
  | .wdata q ws es => HoldsW s q ws es ws.length
  | .wapb q ws w es _ => HoldsW s q (ws ++ [w]) es ws.length
  | .wresp q ws es _ => HoldsW s q ws es ws.length
  | .rfetch q ds => HoldsR s q ds.length ds.length ∧ s.rfifoValid = false
  | .rapb q ds _ => HoldsR s q ds.length ds.length ∧ s.rfifoValid = false
  | .rbuf q ds d _ =>
    HoldsR s q (ds.length + 1) ds.length ∧ s.rfifoValid = true ∧ s.rdataFifo = d.prdata ∧
      s.rrespFifo = if d.pslverr then respSlverr else respOkay
  | .rerr q n _ => HoldsR s q 0 n

structure Rel (s : State P) (ph : Phase P) : Prop where
  ok : ph.Ok
  apbState : s.apbState = ph.apbState
  apb : ∀ x, (s.port x).view = ph.apb x
  b : (if s.bvalid then some ⟨s.bid, s.bresp⟩ else none) = ph.b
  r : (if s.rvalid then some ⟨s.rid, s.rdata, s.rresp, s.rlast⟩ else none) = ph.r
  txn : TxnRel s.toTxnRegs ph

/-! ### Wires -/

private theorem len_lt (q : Req P) : q.len.toNat < 256 := q.len.isLt

/-- The comparison with `beats_total - 1` at 32 bits is the comparison with the length field. -/
theorem Holds.isLastBeat {s : State P} {q : Req P} {write : Bool} (h : Holds s.toTxnRegs q write) (n : BitVec 9) :
    Burst.isLastBeat s n = (n.toNat == q.len.toNat) := by
  have ht := h.total
  have hl := len_lt q
  have hn := n.isLt
  unfold Burst.isLastBeat
  rw [Bool.eq_iff_iff, beq_iff_eq, beq_iff_eq, ← BitVec.toNat_inj]
  simp only [BitVec.toNat_setWidth, BitVec.toNat_sub, BitVec.toNat_ofNat, ht, Req.beats]
  omega

/-- A beat counter that has not passed the last beat is below `beats_total`. -/
private theorem Holds.lt_total {t : TxnRegs P} {q : Req P} {write : Bool} (h : Holds t q write) {n : BitVec 9}
    (hn : n.toNat ≤ q.len.toNat) : n < t.beatsTotal := by
  rw [BitVec.lt_def, h.total]
  exact Nat.lt_succ_of_le hn

theorem idleForNew_rel {s : State P} {ph : Phase P} (h : Rel s ph) : idleForNew s = ph.isIdle := by
  have hb := h.b
  have hr := h.r
  have ha := h.apbState
  have ht := h.txn
  cases ph with
  | idle =>
    have h1 : s.bvalid = false := by cases hv : s.bvalid <;> simp_all [Phase.b]
    have h2 : s.rvalid = false := by cases hv : s.rvalid <;> simp_all [Phase.r]
    have h3 : s.txnActive = false := ht
    simp [idleForNew, busyWithResp, h1, h2, h3, ha, Phase.apbState, Phase.isIdle]
  | wdata | wapb | wresp | rerr => simp [idleForNew, ht.active, Phase.isIdle]
  | rfetch | rapb | rbuf => simp [idleForNew, ht.1.active, Phase.isIdle]

theorem wready_rel {s : State P} {ph : Phase P} (h : Rel s ph) : wready s = ph.wready := by
  have ha := h.apbState
  have ht := h.txn
  have hok := h.ok
  cases ph with
  | idle =>
    have h3 : s.txnActive = false := ht
    simp [wready, h3, Phase.wready]
  | wdata q ws es =>
    have hlt : s.beatIndex < s.beatsTotal := ht.lt_total (ht.index.trans_le (Req.wEnded_eq_false.1 hok.1).2)
    simp [wready, ht.active, ht.isWrite, ht.ended, hok.1, hlt, ha, Phase.apbState, Phase.wready]
  | wapb q ws w es en =>
    have h1 : s.txnDecerr = false := by simp [ht.decerr, hok.1]
    have h2 : (s.apbState == .idle) = false := by rw [ha]; cases en <;> rfl
    simp [wready, h1, h2, Phase.wready]
  | wresp q ws es v => simp [wready, ht.ended, hok.2.1, Phase.wready]
  | rfetch q ds => simp [wready, ht.1.isWrite, Phase.wready]
  | rapb q ds en => simp [wready, ht.1.isWrite, Phase.wready]
  | rbuf q ds d v => simp [wready, ht.1.isWrite, Phase.wready]
  | rerr q n v => simp [wready, ht.isWrite, Phase.wready]

/-- Related registers show the same outputs. -/
theorem out_rel {s : State P} {ph : Phase P} (h : Rel s ph) (i : In P) : out s i = ph.out i := by
  simp only [out, Phase.out, awready, arready, idleForNew_rel h, wready_rel h, h.b, h.r, ← h.apb]
  rfl

theorem Rel.bvalid {s : State P} {ph : Phase P} (h : Rel s ph) : s.bvalid = ph.b.isSome := by
  rw [← h.b]; cases s.bvalid <;> rfl

theorem Rel.rvalid {s : State P} {ph : Phase P} (h : Rel s ph) : s.rvalid = ph.r.isSome := by
  rw [← h.r]; cases s.rvalid <;> rfl

theorem wHandshake_rel {s : State P} {ph : Phase P} (h : Rel s ph) (i : In P) :
    wHandshake s i = (i.wvalid && ph.wready) := by
  rw [wHandshake, wready_rel h]

/-! ### The APB block -/

@[simp] theorem view_release (p : Port P) : p.release.view = .quiet := rfl

theorem port_releasePorts (a : ApbRegs P) (x : Bool) : (releasePorts a).port x = (a.port x).release := by
  cases x <;> rfl

theorem port_onSelected (s : State P) (f : Port P → Port P) (a : ApbRegs P) (x : Bool) :
    (onSelected s f a).port x = if x = s.axiSelApb1 then f (a.port x) else a.port x := by
  unfold onSelected
  cases x <;> cases s.axiSelApb1 <;> rfl

/-- Both ports idle. -/
private def Quiet (a : ApbRegs P) : Prop := a.apbState = .idle ∧ ∀ x, (a.port x).view = .quiet

private theorem quiet_releasePorts (a : ApbRegs P) : Quiet { releasePorts a with apbState := .idle } :=
  ⟨rfl, fun x => congrArg Port.view (port_releasePorts a x)⟩

private theorem quiet_release_of_idle {a : ApbRegs P} (h : a.apbState = .idle) : Quiet (releasePorts a) :=
  ⟨h, fun x => congrArg Port.view (port_releasePorts a x)⟩

/-- The selected port shows a transfer with control `k`, in its access phase if `en`. -/
private def Drives (a : ApbRegs P) (q : Req P) (k : Ctrl P) (en : Bool) : Prop :=
  a.apbState = (if en then .access else .setup) ∧
    ∀ x, (a.port x).view = if x = q.port then ⟨true, en, some k⟩ else .quiet

/-- A launch on the selected port starts the setup phase. -/
private theorem drives_launch {s : State P} {q : Req P} {k : Ctrl P} {f : Port P → Port P} (hsel : s.axiSelApb1 = q.port)
    (hf : ∀ p : Port P, (f p.release).view = ⟨true, false, some k⟩) (a : ApbRegs P) :
    Drives { onSelected s f (releasePorts a) with apbState := .setup } q k false := by
  refine ⟨rfl, fun x => ?_⟩
  have := port_onSelected s f (releasePorts a) x
  rw [port_releasePorts, hsel] at this
  show Port.view ((onSelected s f (releasePorts a)).port x) = _
  rw [this]
  split
  · exact hf _
  · exact view_release _

/-- Setup is followed by access. -/
private theorem drives_enable {s : State P} {q : Req P} {k : Ctrl P} (hsel : s.axiSelApb1 = q.port)
    (h : Drives s.toApbRegs q k false) :
    Drives { onSelected s (fun p => { p with penable := true }) s.toApbRegs with apbState := .access } q k true := by
  refine ⟨rfl, fun x => ?_⟩
  have hx := h.2 x
  have := port_onSelected s (fun p => { p with penable := true }) s.toApbRegs x
  rw [hsel] at this
  show Port.view ((onSelected s _ s.toApbRegs).port x) = _
  rw [this]
  by_cases hp : x = q.port
  · rw [if_pos hp] at hx ⊢
    rw [if_pos hp]
    simp only [Port.view, PortView.mk.injEq] at hx ⊢
    exact ⟨hx.1, trivial, hx.2.2⟩
  · rw [if_neg hp] at hx ⊢
    rw [if_neg hp]
    exact hx

private theorem preadySel_eq {s : State P} {q : Req P} (hsel : s.axiSelApb1 = q.port) (i : In P) :
    preadySel s i = i.pready q.port := by
  rw [preadySel, hsel]; rfl

/-- The access phase lasts until `PREADY` of the selected port. -/
private theorem apbBlock_access {s : State P} {q : Req P} {k : Ctrl P} (hsel : s.axiSelApb1 = q.port)
    (h : Drives s.toApbRegs q k true) (i : In P) :
    (i.pready q.port = true ∧ Quiet (apbBlock s i)) ∨
      (i.pready q.port = false ∧ Drives (apbBlock s i) q k true) := by
  have hst : s.apbState = .access := h.1
  unfold apbBlock
  rw [hst]
  simp only [preadySel_eq hsel]
  cases hp : i.pready q.port with
  | true => exact Or.inl ⟨rfl, quiet_releasePorts _⟩
  | false => exact Or.inr ⟨rfl, h⟩

private theorem apbBlock_setup {s : State P} {q : Req P} {k : Ctrl P} (hsel : s.axiSelApb1 = q.port)
    (h : Drives s.toApbRegs q k false) (i : In P) : Drives (apbBlock s i) q k true := by
  have hst : s.apbState = .setup := h.1
  have := drives_enable hsel h
  unfold apbBlock
  rw [hst]
  exact this

/-- No transfer is launched. -/
private theorem apbBlock_stay {s : State P} {i : In P} (hst : s.apbState = .idle)
    (h : s.txnActive = true → s.txnDecerr = false →
      if s.axiIsWrite then wHandshake s i = false else s.rfifoValid = true) : Quiet (apbBlock s i) := by
  unfold apbBlock
  rw [hst]
  dsimp only
  have hq := quiet_release_of_idle hst
  split
  · rename_i hact
    simp only [Bool.and_eq_true, Bool.not_eq_true'] at hact
    have := h hact.1.1 hact.1.2
    split
    · rename_i hw
      rw [if_pos hw] at this
      rw [this]
      exact hq
    · rename_i hw
      rw [if_neg hw] at this
      rw [this]
      exact hq
  · exact hq

private theorem apbBlock_rel {s : State P} {ph : Phase P} (h : Rel s ph) (i : In P) :
    (apbBlock s i).apbState = (ph.step i).apbState ∧ ∀ x, ((apbBlock s i).port x).view = (ph.step i).apb x := by
  have ha := h.apbState
  have hp := h.apb
  have ht := h.txn
  have hok := h.ok
  have hw := wHandshake_rel h i
  cases ph with
  | idle =>
    have hact : s.txnActive = false := ht
    have hq : Quiet (apbBlock s i) := apbBlock_stay ha (fun h => by rw [hact] at h; cases h)
    simp only [Phase.step, Phase.startRead]
    repeat' split
    all_goals exact hq
  | wdata q ws es =>
    have hlt : s.beatIndex < s.beatsTotal := ht.lt_total (ht.index.trans_le (Req.wEnded_eq_false.1 hok.1).2)
    by_cases hl : q.Legal
    · have hd : s.txnDecerr = false := by simp [ht.decerr, hl]
      cases hv : i.wvalid with
      | true =>
        have hs : wHandshake s i = true := by rw [hw, hv]; rfl
        have := drives_launch (f := launchWrite s i) (k := q.writeCtrl ws.length i.wBeat) ht.sel
          (fun p => by simp [launchWrite, Port.view, Port.ctrl, Port.release, ht.addr hl, ht.prot]; rfl) s.toApbRegs
        unfold apbBlock
        rw [ha]
        simp only [Phase.apbState, ht.active, hd, hlt, ht.isWrite, hs, Phase.step, hv, Phase.takeW, hl, if_true,
          Bool.not_false, Bool.and_self, decide_true]
        exact this
      | false =>
        have hq : Quiet (apbBlock s i) := apbBlock_stay ha (fun _ _ => by rw [if_pos ht.isWrite, hw, hv]; rfl)
        simp only [Phase.step, hv]
        exact hq
    · have hq : Quiet (apbBlock s i) := apbBlock_stay ha (fun _ hd => by simp [ht.decerr, hl] at hd)
      simp only [Phase.step, Phase.takeW, hl, if_false]
      repeat' split
      all_goals exact hq
  | wapb q ws w es en =>
    have hdr : Drives s.toApbRegs q (q.writeCtrl ws.length w) en := ⟨ha, hp⟩
    cases en with
    | false => exact apbBlock_setup ht.sel hdr i
    | true =>
      rcases apbBlock_access ht.sel hdr i with ⟨hr, hq⟩ | ⟨hr, hd⟩
      · simp only [Phase.step, hr, Phase.wDone, if_true]
        split <;> exact hq
      · simp only [Phase.step, hr]
        exact hd
  | wresp q ws es v =>
    have hq : Quiet (apbBlock s i) := apbBlock_stay ha (fun _ _ => by rw [if_pos ht.isWrite, hw]; simp [Phase.wready])
    cases v <;> simp only [Phase.step]
    · exact hq
    · split <;> exact hq
  | rfetch q ds =>
    have hd : s.txnDecerr = false := by simp [ht.1.decerr, hok.1]
    have hlt : s.beatIndex < s.beatsTotal := ht.1.lt_total (ht.1.index.trans_le hok.2)
    have hv : s.rvalid = false := h.rvalid
    have := drives_launch (f := launchRead s) (k := q.readCtrl ds.length) ht.1.sel
      (fun p => by simp [launchRead, Port.view, Port.ctrl, Port.release, ht.1.addr hok.1, ht.1.prot]; rfl) s.toApbRegs
    unfold apbBlock
    rw [ha]
    simp only [Phase.apbState, ht.1.active, hd, hlt, ht.1.isWrite, ht.2, hv, Phase.step, Bool.not_false, Bool.and_self,
      decide_true, Bool.true_or, if_true]
    exact this
  | rapb q ds en =>
    have hdr : Drives s.toApbRegs q (q.readCtrl ds.length) en := ⟨ha, hp⟩
    cases en with
    | false => exact apbBlock_setup ht.1.sel hdr i
    | true =>
      rcases apbBlock_access ht.1.sel hdr i with ⟨hr, hq⟩ | ⟨hr, hd⟩
      · simp only [Phase.step, hr, if_true]
        exact hq
      · simp only [Phase.step, hr]
        exact hd
  | rbuf q ds d v =>
    have hq : Quiet (apbBlock s i) := apbBlock_stay ha (fun _ _ => by rw [if_neg (by simp [ht.1.isWrite])]; exact ht.2.1)
    cases v <;> simp only [Phase.step]
    · exact hq
    · repeat' split
      all_goals exact hq
  | rerr q n v =>
    have hq : Quiet (apbBlock s i) := apbBlock_stay ha (fun _ hd => by simp [ht.decerr, hok.1] at hd)
    cases v <;> simp only [Phase.step]
    · exact hq
    · repeat' split
      all_goals exact hq

/-! ### The B and the R block -/

/-- Only `wresp` leads to a phase that shows a B beat. -/
private theorem b_step {ph : Phase P} (h : ∀ q ws es v, ph ≠ .wresp q ws es v) (i : In P) : (ph.step i).b = none := by
  cases ph with
  | idle | wdata =>
    simp only [Phase.step, Phase.startRead, Phase.takeW]
    repeat' split
    all_goals rfl
  | wapb q ws w es en =>
    cases en with
    | false => rfl
    | true =>
      simp only [Phase.step, Phase.wDone]
      repeat' split
      all_goals rfl
  | wresp q ws es v => exact absurd rfl (h q ws es v)
  | rfetch q ds => rfl
  | rapb q ds en =>
    cases en with
    | false => rfl
    | true => rw [Phase.step]; split <;> rfl
  | rbuf _ _ _ v | rerr _ _ v =>
    cases v with
    | false => rfl
    | true =>
      rw [Phase.step]
      repeat' split
      all_goals rfl

/-- Only `rbuf` and `rerr` lead to a phase that shows an R beat. -/
private theorem r_step {ph : Phase P} (h : ∀ q ds d v, ph ≠ .rbuf q ds d v) (h' : ∀ q n v, ph ≠ .rerr q n v)
    (i : In P) : (ph.step i).r = none := by
  cases ph with
  | idle | wdata =>
    simp only [Phase.step, Phase.startRead, Phase.takeW]
    repeat' split
    all_goals rfl
  | wapb q ws w es en =>
    cases en with
    | false => rfl
    | true =>
      simp only [Phase.step, Phase.wDone]
      repeat' split
      all_goals rfl
  | wresp q ws es v =>
    cases v with
    | false => rfl
    | true => rw [Phase.step]; split <;> rfl
  | rfetch q ds => rfl
  | rapb q ds en =>
    cases en with
    | false => rfl
    | true => rw [Phase.step]; split <;> rfl
  | rbuf q ds d v => exact absurd rfl (h q ds d v)
  | rerr q n v => exact absurd rfl (h' q n v)

/-- Only a finished write raises `BVALID`. -/
private theorem bBlock_stay {s : State P} {i : In P} (hv : s.bvalid = false)
    (h : s.txnActive = true → s.axiIsWrite = true → s.wDone = true → s.apbState ≠ .idle) :
    (bBlock s i).bvalid = false := by
  unfold bBlock
  rw [hv]
  simp only [Bool.false_and, Bool.not_false, Bool.and_true]
  rw [if_neg (by simp), if_neg]
  · exact hv
  · simp only [Bool.and_eq_true, beq_iff_eq, not_and]
    exact fun h1 => h h1.1.1 h1.1.2 h1.2

private theorem bBlock_rel {s : State P} {ph : Phase P} (h : Rel s ph) (i : In P) :
    (if (bBlock s i).bvalid then some ⟨(bBlock s i).bid, (bBlock s i).bresp⟩ else none) = (ph.step i).b := by
  have ha := h.apbState
  have hb := h.bvalid
  have ht := h.txn
  have hok := h.ok
  cases ph with
  | idle =>
    have hact : s.txnActive = false := ht
    rw [bBlock_stay hb (fun h => by rw [hact] at h; cases h), b_step (by simp)]
    rfl
  | wdata q ws es =>
    rw [bBlock_stay hb (fun _ _ h => by rw [ht.ended, hok.1] at h; cases h), b_step (by simp)]
    rfl
  | wapb q ws w es en =>
    -- the last beat is in flight: `WLAST` was seen, but the APB port is not idle
    rw [bBlock_stay hb (fun _ _ _ => by rw [ha]; cases en <;> simp [Phase.apbState]), b_step (by simp)]
    rfl
  | wresp q ws es v =>
    cases v with
    | false =>
      have h1 : s.wDone = true := by rw [ht.ended, hok.2.1]
      have h2 : s.bvalid = false := hb
      have h3 : s.txnDecerr = !decide q.Legal := ht.decerr
      simp only [bBlock, h1, h2, h3, ht.active, ht.isWrite, ha, Phase.apbState, ht.errs, ht.bad, ht.id, Phase.step,
        Phase.b, Req.bBeat]
      by_cases hl : q.Legal <;> simp [hl]
    | true =>
      have h2 : s.bvalid = true := hb
      have h3 := h.b
      cases hr : i.bready with
      | true => simp [bBlock, h2, hr, Phase.step, Phase.b]
      | false =>
        simp only [bBlock, h2, hr, Phase.step]
        simpa using h3
  | rfetch | rapb | rbuf =>
    rw [bBlock_stay hb (fun _ h => by rw [ht.1.isWrite] at h; cases h), b_step (by simp)]
    rfl
  | rerr q n v =>
    rw [bBlock_stay hb (fun _ h => by rw [ht.isWrite] at h; cases h), b_step (by simp)]
    rfl

/-- Only a read with something to return raises `RVALID`. -/
private theorem rBlock_stay {s : State P} {i : In P} (hv : s.rvalid = false)
    (h : s.txnActive = true → s.axiIsWrite = false → s.txnDecerr = false ∧ s.rfifoValid = false) :
    (rBlock s i).rvalid = false := by
  unfold rBlock
  rw [hv]
  simp only [Bool.false_and, Bool.not_false, Bool.and_true]
  rw [if_neg (by simp)]
  split
  · rename_i hc
    simp only [Bool.and_eq_true, Bool.not_eq_true'] at hc
    obtain ⟨h1, h2⟩ := h hc.1.1 hc.1.2
    rw [h1, h2]
    exact hv
  · exact hv

/-- An R beat on the wires stays until it is taken. -/
private theorem rBlock_shown {s : State P} (hv : s.rvalid = true) (i : In P) :
    (if (rBlock s i).rvalid then
      some (⟨(rBlock s i).rid, (rBlock s i).rdata, (rBlock s i).rresp, (rBlock s i).rlast⟩ : RBeat P) else none) =
      if i.rready then none else some ⟨s.rid, s.rdata, s.rresp, s.rlast⟩ := by
  cases hi : i.rready <;> simp [rBlock, hv, hi]

private theorem rBlock_rel {s : State P} {ph : Phase P} (h : Rel s ph) (i : In P) :
    (if (rBlock s i).rvalid then
      some ⟨(rBlock s i).rid, (rBlock s i).rdata, (rBlock s i).rresp, (rBlock s i).rlast⟩ else none) =
      (ph.step i).r := by
  have hr := h.rvalid
  have hR := h.r
  have ht := h.txn
  have hok := h.ok
  cases ph with
  | idle =>
    have hact : s.txnActive = false := ht
    rw [rBlock_stay hr (fun h => by rw [hact] at h; cases h), r_step (by simp) (by simp)]
    rfl
  | wdata | wapb | wresp =>
    rw [rBlock_stay hr (fun _ h => by rw [ht.isWrite] at h; cases h), r_step (by simp) (by simp)]
    rfl
  | rfetch | rapb =>
    -- `rfifo_valid` is only raised with the next `PREADY`
    rw [rBlock_stay hr (fun _ _ => ⟨by simp [ht.1.decerr, hok.1], ht.2⟩), r_step (by simp) (by simp)]
    rfl
  | rbuf q ds d v =>
    cases v with
    | false =>
      have h1 : s.rvalid = false := hr
      have h2 : s.txnDecerr = false := by simp [ht.1.decerr, hok.1]
      have h3 : s.beatsSent < s.beatsTotal := ht.1.lt_total (ht.1.sent.trans_le hok.2)
      simp [rBlock, h1, h2, h3, ht.1.active, ht.1.isWrite, ht.2.1, ht.2.2.1, ht.2.2.2, ht.1.isLastBeat, ht.1.sent,
        ht.1.id, Phase.step, Phase.r, Req.rBeat]
    | true =>
      have h1 : s.rvalid = true := hr
      rw [h1, if_pos rfl] at hR
      rw [rBlock_shown h1, hR, Phase.step]
      repeat' split
      all_goals rfl
  | rerr q n v =>
    cases v with
    | false =>
      have h1 : s.rvalid = false := hr
      have h2 : s.txnDecerr = true := by simp [ht.decerr, hok.1]
      have h3 : s.beatsSent < s.beatsTotal := ht.lt_total (ht.sent.trans_le hok.2)
      simp [rBlock, h1, h2, h3, ht.active, ht.isWrite, ht.isLastBeat, ht.sent, ht.id, Phase.step, Phase.r,
        Req.errBeat]
    | true =>
      have h1 : s.rvalid = true := hr
      rw [h1, if_pos rfl] at hR
      rw [rBlock_shown h1, hR, Phase.step]
      repeat' split
      all_goals rfl

/-! ### The transaction block -/

private theorem txnBlock_busy {s : State P} (h : idleForNew s = false) (i : In P) :
    txnBlock s i = txnResp s i (txnApb s i (txnWdata s i s.toTxnRegs)) := by
  have h1 : awHandshake s i = false := by simp [awHandshake, awready, h]
  have h2 : arHandshake s i = false := by simp [arHandshake, arready, h]
  simp [txnBlock, txnRequest, h1, h2]

private theorem txnWdata_stay {s : State P} {i : In P} (h : wHandshake s i = false) (t : TxnRegs P) :
    txnWdata s i t = t := by
  simp [txnWdata, h]

private theorem txnApb_stay {s : State P} {i : In P} (h : s.apbState = .access → preadySel s i = false)
    (t : TxnRegs P) : txnApb s i t = t := by
  unfold txnApb
  rw [if_neg]
  simp only [Bool.and_eq_true, beq_iff_eq, not_and, Bool.not_eq_true]
  exact h

private theorem txnResp_stay {s : State P} {i : In P} (hb : (s.bvalid && i.bready) = false)
    (hr : (s.rvalid && i.rready) = false) (t : TxnRegs P) : txnResp s i t = t := by
  simp [txnResp, hb, hr]

/-- An address handshake loads its request. -/
private theorem holds_capture (t : TxnRegs P) (q : Req P) (write : Bool) :
    Holds (capture t q write (!decide q.Legal)) q write := by
  refine ⟨rfl, rfl, rfl, rfl, rfl, rfl, ?_, rfl, rfl⟩
  have := len_lt q
  simp only [capture, BitVec.toNat_setWidth, BitVec.toNat_add, BitVec.toNat_ofNat, Req.beats]
  omega

/-- The W handshake. -/
private theorem holdsW_takeW {s : State P} {q : Req P} {ws : List (WBeat P)} {es : List Bool} {i : In P}
    (h : HoldsW s.toTxnRegs q ws es ws.length) (hne : q.wEnded ws = false) (hs : wHandshake s i = true) :
    HoldsW (txnWdata s i s.toTxnRegs) q (ws ++ [i.wBeat]) es (if q.Legal then ws.length else ws.length + 1) := by
  have hlen := (Req.wEnded_eq_false.1 hne).2
  have hl := len_lt q
  have hlast : isLastBeat s s.beatIndex = (ws.length == q.len.toNat) := by rw [h.isLastBeat, h.index]
  have hd : s.txnDecerr = !decide q.Legal := h.decerr
  have hc : (wHandshake s i && s.txnActive && s.axiIsWrite) = true := by rw [hs, h.active, h.isWrite]; rfl
  unfold txnWdata
  rw [if_pos hc, hlast]
  refine ⟨⟨h.active, h.isWrite, h.id, h.prot, h.size, h.burst, h.total, h.sel, h.decerr⟩, ?_, h.sent, ?_, ?_, ?_,
    h.errs⟩
  · have hi : s.beatIndex.toNat = ws.length := h.index
    by_cases hq : q.Legal
    · simp [hd, hq, hi]
    · simp only [hd, hq, decide_false, Bool.not_false, if_true, if_false, BitVec.toNat_add, hi]
      show (ws.length + 1) % 512 = _
      omega
  · intro hq
    simp only [hq, if_true]
    exact h.addr hq
  · rw [Req.wEnded_concat hne]
    show (if _ then _ else s.wDone) = (i.wlast || _)
    rw [show s.wDone = false from h.ended.trans hne]
    cases (i.wlast || ws.length == q.len.toNat) <;> rfl
  · rw [Req.malformed_concat]
    show (if _ then _ else s.wlastErr) = _
    rw [show s.wlastErr = q.malformed ws from h.bad]
    show (if (i.wlast != _) = true then _ else _) = (_ || (i.wlast != _))
    cases (i.wlast != (ws.length == q.len.toNat)) <;> simp

/-- A transfer completes: address and index move on. -/
private theorem txnApb_done {s : State P} {q : Req P} {write : Bool} {n : Nat} {i : In P}
    (h : Holds s.toTxnRegs q write) (hst : s.apbState = .access) (hp : i.pready q.port = true) (hn : n ≤ q.len.toNat)
    (hi : s.beatIndex.toNat = n) (ha : s.axiAddrReg = q.beatAddr n) :
    Holds (txnApb s i s.toTxnRegs) q write ∧ (txnApb s i s.toTxnRegs).beatIndex.toNat = n + 1 ∧
      (txnApb s i s.toTxnRegs).axiAddrReg = q.beatAddr (n + 1) := by
  have hl := len_lt q
  have hc : (s.apbState == .access && preadySel s i) = true := by rw [hst, preadySel_eq h.sel, hp]; rfl
  unfold txnApb
  rw [if_pos hc]
  refine ⟨⟨h.active, h.isWrite, h.id, h.prot, h.size, h.burst, h.total, h.sel, h.decerr⟩, ?_, ?_⟩
  · show (s.beatIndex + 1).toNat = n + 1
    rw [BitVec.toNat_add, hi]
    show (n + 1) % 512 = n + 1
    omega
  · show (if s.axiBurstReg == burstIncr then addrIncr s else s.axiAddrReg) = q.beatAddr (n + 1)
    rw [Req.beatAddr_succ, show s.axiBurstReg = q.burst from h.burst, addrIncr, ha,
      show s.axiSizeReg = q.size from h.size]
    simp only [beq_iff_eq]

private theorem holdsW_apbDone {s : State P} {q : Req P} {ws : List (WBeat P)} {es : List Bool} {i : In P} {n : Nat}
    (h : HoldsW s.toTxnRegs q ws es n) (hq : q.Legal) (hst : s.apbState = .access) (hp : i.pready q.port = true)
    (hn : n ≤ q.len.toNat) :
    HoldsW (txnApb s i s.toTxnRegs) q ws (es ++ [i.pslverr q.port]) (n + 1) := by
  obtain ⟨h1, h2, h3⟩ := txnApb_done h.toHolds hst hp hn h.index (h.addr hq)
  have he : pslverrSel s i = i.pslverr q.port := by rw [pslverrSel, h.sel]; rfl
  have ht : (txnApb s i s.toTxnRegs).pslverrAcc = (if i.pslverr q.port then true else s.pslverrAcc) := by
    simp [txnApb, hst, preadySel_eq h.sel, hp, he]
  refine ⟨h1, h2, ?_, fun _ => h3, ?_, ?_, ?_⟩
  · simpa [txnApb, hst, preadySel_eq h.sel, hp] using h.sent
  · simpa [txnApb, hst, preadySel_eq h.sel, hp] using h.ended
  · simpa [txnApb, hst, preadySel_eq h.sel, hp] using h.bad
  · rw [ht, show s.pslverrAcc = es.contains true from h.errs]
    cases i.pslverr q.port <;> simp

private theorem holdsR_apbDone {s : State P} {q : Req P} {i : In P} {n m : Nat}
    (h : HoldsR s.toTxnRegs q n m) (hq : q.Legal) (hst : s.apbState = .access) (hp : i.pready q.port = true)
    (hn : n ≤ q.len.toNat) :
    HoldsR (txnApb s i s.toTxnRegs) q (n + 1) m ∧ (txnApb s i s.toTxnRegs).rfifoValid = true ∧
      (txnApb s i s.toTxnRegs).rdataFifo = i.prdata q.port ∧
      (txnApb s i s.toTxnRegs).rrespFifo = if i.pslverr q.port then respSlverr else respOkay := by
  obtain ⟨h1, h2, h3⟩ := txnApb_done h.toHolds hst hp hn h.index (h.addr hq)
  have he : pslverrSel s i = i.pslverr q.port := by rw [pslverrSel, h.sel]; rfl
  have hd : prdataSel s i = i.prdata q.port := by rw [prdataSel, h.sel]; rfl
  refine ⟨⟨h1, h2, ?_, fun _ => h3⟩, ?_, ?_, ?_⟩
  · simpa [txnApb, hst, preadySel_eq h.sel, hp] using h.sent
  all_goals simp [txnApb, hst, preadySel_eq h.sel, hp, h.isWrite, he, hd]

/-- An R beat that is not the last is accepted. -/
private theorem holdsR_taken {s : State P} {q : Req P} {i : In P} {n m : Nat} (h : HoldsR s.toTxnRegs q n m)
    (hb : s.bvalid = false) (hr : s.rvalid = true) (hi : i.rready = true) (hlast : s.rlast = false)
    (hm : m ≤ q.len.toNat) :
    HoldsR (txnResp s i s.toTxnRegs) q n (m + 1) ∧ (txnResp s i s.toTxnRegs).rfifoValid = false := by
  have hl := len_lt q
  simp only [txnResp, hb, hr, hi, hlast, Bool.false_and, Bool.and_self, if_true]
  refine ⟨⟨⟨h.active, h.isWrite, h.id, h.prot, h.size, h.burst, h.total, h.sel, h.decerr⟩, h.index, ?_, h.addr⟩, trivial⟩
  show (s.beatsSent + 1).toNat = m + 1
  rw [BitVec.toNat_add, h.sent]
  show (m + 1) % 512 = m + 1
  omega

/-- The last R beat is accepted. -/
private theorem txnResp_last {s : State P} {i : In P} (hb : s.bvalid = false) (hr : s.rvalid = true)
    (hi : i.rready = true) (hlast : s.rlast = true) (t : TxnRegs P) : (txnResp s i t).txnActive = false := by
  simp only [txnResp, hb, hr, hi, hlast, Bool.false_and, Bool.and_self, if_true]

section
variable {s : State P} {ph : Phase P}

private theorem noW (h : Rel s ph) {i : In P} (hw : (i.wvalid && ph.wready) = false) : wHandshake s i = false :=
  (wHandshake_rel h i).trans hw

private theorem noApb (h : Rel s ph) {i : In P} (ha : ph.apbState ≠ .access) :
    s.apbState = .access → preadySel s i = false :=
  fun hs => absurd (h.apbState.symm.trans hs) ha

private theorem noB (h : Rel s ph) {i : In P} (hb : (ph.b.isSome && i.bready) = false) :
    (s.bvalid && i.bready) = false := by
  rw [h.bvalid, hb]

private theorem noR (h : Rel s ph) {i : In P} (hr : (ph.r.isSome && i.rready) = false) :
    (s.rvalid && i.rready) = false := by
  rw [h.rvalid, hr]

/-- A phase in which nothing is handed over leaves the transaction block alone. -/
private theorem txnBlock_stay (h : Rel s ph) {i : In P} (hidle : ph.isIdle = false)
    (hw : (i.wvalid && ph.wready) = false) (ha : s.apbState = .access → preadySel s i = false)
    (hb : (ph.b.isSome && i.bready) = false) (hr : (ph.r.isSome && i.rready) = false) :
    txnBlock s i = s.toTxnRegs := by
  rw [txnBlock_busy ((idleForNew_rel h).trans hidle), txnWdata_stay (noW h hw), txnApb_stay ha,
    txnResp_stay (noB h hb) (noR h hr)]

private theorem txnBlock_wdata (h : Rel s ph) {i : In P} (hidle : ph.isIdle = false) (ha : ph.apbState ≠ .access)
    (hb : ph.b = none) (hr : ph.r = none) : txnBlock s i = txnWdata s i s.toTxnRegs := by
  rw [txnBlock_busy ((idleForNew_rel h).trans hidle), txnApb_stay (noApb h ha),
    txnResp_stay (noB h (by rw [hb]; rfl)) (noR h (by rw [hr]; rfl))]

private theorem txnBlock_apb (h : Rel s ph) {i : In P} (hidle : ph.isIdle = false) (hw : ph.wready = false)
    (hb : ph.b = none) (hr : ph.r = none) : txnBlock s i = txnApb s i s.toTxnRegs := by
  rw [txnBlock_busy ((idleForNew_rel h).trans hidle), txnWdata_stay (noW h (by rw [hw, Bool.and_false])),
    txnResp_stay (noB h (by rw [hb]; rfl)) (noR h (by rw [hr]; rfl))]

private theorem txnBlock_resp (h : Rel s ph) {i : In P} (hidle : ph.isIdle = false) (hw : ph.wready = false)
    (ha : ph.apbState ≠ .access) : txnBlock s i = txnResp s i s.toTxnRegs := by
  rw [txnBlock_busy ((idleForNew_rel h).trans hidle), txnWdata_stay (noW h (by rw [hw, Bool.and_false])),
    txnApb_stay (noApb h ha)]

/-- In `idle` the block only takes requests. -/
private theorem txnBlock_idle (h : Rel s .idle) (i : In P) : txnBlock s i = txnRequest s i s.toTxnRegs := by
  rw [txnBlock, txnWdata_stay (noW h (Bool.and_false _)), txnApb_stay (noApb h (by simp [Phase.apbState])),
    txnResp_stay (noB h rfl) (noR h rfl)]

/-- `RLAST` of the beat that is shown. -/
private theorem rlast_rel (h : Rel s ph) {b : RBeat P} (hr : ph.r = some b) : s.rlast = b.rlast := by
  have hR := h.r
  have hv : s.rvalid = true := by rw [h.rvalid, hr]; rfl
  rw [hv, if_pos rfl, hr] at hR
  exact congrArg RBeat.rlast (Option.some.inj hR)

private theorem txnBlock_rel (h : Rel s ph) (i : In P) : TxnRel (txnBlock s i) (ph.step i) := by
  have hidle := idleForNew_rel h
  have ht := h.txn
  have hok := h.ok
  cases ph with
  | idle =>
    have haw : awHandshake s i = (i.awvalid && !i.arvalid) := by rw [awHandshake, awready, hidle]; rfl
    have har : arHandshake s i = (i.arvalid && !i.awvalid) := by rw [arHandshake, arready, hidle]; rfl
    rw [txnBlock_idle h, txnRequest, haw, har, Phase.step]
    split
    · rw [awParamErr, show paramErr i.awaddr i.awlen i.awsize i.awburst = !decide i.awReq.Legal
        from Req.paramErr_eq i.awReq]
      exact ⟨holds_capture _ _ _, rfl, rfl, fun _ => (Req.beatAddr_zero _).symm, rfl, rfl, rfl⟩
    · split
      · rw [arParamErr, show paramErr i.araddr i.arlen i.arsize i.arburst = !decide i.arReq.Legal
          from Req.paramErr_eq i.arReq, Phase.startRead]
        have hc : HoldsR (capture s.toTxnRegs i.arReq false (!decide i.arReq.Legal)) i.arReq 0 0 :=
          ⟨holds_capture _ _ _, rfl, rfl, fun _ => (Req.beatAddr_zero _).symm⟩
        split
        · exact ⟨hc, rfl⟩
        · exact hc
      · exact ht
  | wdata q ws es =>
    rw [Phase.step]
    cases hv : i.wvalid with
    | true =>
      have hs : wHandshake s i = true := by rw [wHandshake_rel h, hv]; rfl
      have hT := holdsW_takeW ht hok.1 hs
      rw [txnBlock_wdata h rfl (by simp [Phase.apbState]) rfl rfl, if_pos rfl, Phase.takeW]
      by_cases hl : q.Legal
      · rw [if_pos hl] at hT ⊢
        exact hT
      · -- a rejected write only counts its beats
        rw [if_neg hl] at hT ⊢
        rw [show ws.length + 1 = (ws ++ [i.wBeat]).length by simp] at hT
        split <;> exact hT
    | false =>
      rw [txnBlock_stay h rfl (by rw [hv]; rfl) (noApb h (by simp [Phase.apbState])) rfl rfl]
      exact ht
  | wapb q ws w es en =>
    cases en with
    | false =>
      rw [txnBlock_stay h rfl (Bool.and_false _) (noApb h (by simp [Phase.apbState])) rfl rfl]
      exact ht
    | true =>
      rw [Phase.step]
      cases hp : i.pready q.port with
      | true =>
        have hT := holdsW_apbDone ht hok.1 h.apbState hp (Req.wEnded_eq_false.1 hok.2.1).2
        rw [show ws.length + 1 = (ws ++ [w]).length by simp] at hT
        rw [txnBlock_apb h rfl rfl rfl rfl, if_pos rfl, Phase.wDone]
        split <;> exact hT
      | false =>
        rw [txnBlock_stay h rfl (Bool.and_false _) (fun _ => by rw [preadySel_eq ht.sel, hp]) rfl rfl]
        exact ht
  | wresp q ws es v =>
    cases v with
    | false =>
      rw [txnBlock_stay h rfl (Bool.and_false _) (noApb h (by simp [Phase.apbState])) rfl rfl]
      exact ht
    | true =>
      rw [Phase.step]
      cases hv : i.bready with
      | true =>
        have hb : s.bvalid = true := h.bvalid
        have hr : (s.rvalid && i.rready) = false := noR h rfl
        rw [txnBlock_resp h rfl rfl (by simp [Phase.apbState])]
        simp only [txnResp, hb, hv, hr, Bool.and_self, if_true]
        rfl
      | false =>
        rw [txnBlock_stay h rfl (Bool.and_false _) (noApb h (by simp [Phase.apbState])) hv rfl]
        exact ht
  | rfetch q ds =>
    rw [txnBlock_stay h rfl (Bool.and_false _) (noApb h (by simp [Phase.apbState])) rfl rfl]
    exact ht
  | rapb q ds en =>
    cases en with
    | false =>
      rw [txnBlock_stay h rfl (Bool.and_false _) (noApb h (by simp [Phase.apbState])) rfl rfl]
      exact ht
    | true =>
      rw [Phase.step]
      cases hp : i.pready q.port with
      | true =>
        have hT := holdsR_apbDone ht.1 hok.1 h.apbState hp hok.2
        rw [txnBlock_apb h rfl rfl rfl rfl, if_pos rfl]
        exact hT
      | false =>
        rw [txnBlock_stay h rfl (Bool.and_false _) (fun _ => by rw [preadySel_eq ht.1.sel, hp]) rfl rfl]
        exact ht
  | rbuf q ds d v =>
    cases v with
    | false =>
      rw [txnBlock_stay h rfl (Bool.and_false _) (noApb h (by simp [Phase.apbState])) rfl rfl]
      exact ht
    | true =>
      have hlast : s.rlast = (ds.length == q.len.toNat) := rlast_rel h rfl
      rw [Phase.step]
      cases hv : i.rready with
      | true =>
        rw [txnBlock_resp h rfl rfl (by simp [Phase.apbState]), if_pos rfl]
        cases hl : ds.length == q.len.toNat with
        | true => exact txnResp_last h.bvalid h.rvalid hv (hlast.trans hl) _
        | false =>
          have := holdsR_taken ht.1 h.bvalid h.rvalid hv (hlast.trans hl) hok.2
          rw [if_neg Bool.false_ne_true]
          show HoldsR _ q (ds ++ [d]).length (ds ++ [d]).length ∧ _
          rw [List.length_append]
          exact this
      | false =>
        rw [txnBlock_stay h rfl (Bool.and_false _) (noApb h (by simp [Phase.apbState])) rfl hv]
        exact ht
  | rerr q n v =>
    cases v with
    | false =>
      rw [txnBlock_stay h rfl (Bool.and_false _) (noApb h (by simp [Phase.apbState])) rfl rfl]
      exact ht
    | true =>
      have hlast : s.rlast = (n == q.len.toNat) := rlast_rel h rfl
      rw [Phase.step]
      cases hv : i.rready with
      | true =>
        rw [txnBlock_resp h rfl rfl (by simp [Phase.apbState]), if_pos rfl]
        cases hl : n == q.len.toNat with
        | true => exact txnResp_last h.bvalid h.rvalid hv (hlast.trans hl) _
        | false =>
          rw [if_neg Bool.false_ne_true]
          exact (holdsR_taken ht h.bvalid h.rvalid hv (hlast.trans hl) hok.2).1
      | false =>
        rw [txnBlock_stay h rfl (Bool.and_false _) (noApb h (by simp [Phase.apbState])) rfl hv]
        exact ht

end

/-! ### The refinement -/

theorem ok_step {ph : Phase P} (h : ph.Ok) (i : In P) : (ph.step i).Ok := by
  cases ph with
  | idle =>
    have h0 : ∀ q : Req P, q.wEnded ([] : List (WBeat P)) = false := fun q => Req.wEnded_eq_false.2 ⟨rfl, Nat.zero_le _⟩
    rw [Phase.step]
    split
    · exact ⟨h0 _, by simp⟩
    · split
      · rw [Phase.startRead]
        split
        · rename_i hq
          exact ⟨hq, Nat.zero_le _⟩
        · rename_i hq
          exact ⟨hq, Nat.zero_le _⟩
      · exact h
  | wdata q ws es =>
    rw [Phase.step]
    split
    · rw [Phase.takeW]
      split
      · rename_i hq
        exact ⟨hq, h.1, by simpa [hq] using h.2⟩
      · rename_i hq
        have hes : es.length = 0 := by simpa [hq] using h.2
        split
        · rename_i he
          exact ⟨⟨ws, i.wBeat, rfl, h.1⟩, he, by simpa [hq] using hes⟩
        · rename_i he
          exact ⟨Bool.eq_false_iff.2 he, by simpa [hq] using hes⟩
    · exact h
  | wapb q ws w es en =>
    cases en with
    | false => exact h
    | true =>
      rw [Phase.step]
      split
      · rw [Phase.wDone]
        split
        · rename_i he
          exact ⟨⟨ws, w, rfl, h.2.1⟩, he, by simp [h.1, h.2.2]⟩
        · rename_i he
          exact ⟨Bool.eq_false_iff.2 he, by simp [h.1, h.2.2]⟩
      · exact h
  | wresp q ws es v =>
    cases v with
    | false => exact h
    | true =>
      rw [Phase.step]
      split
      · trivial
      · exact h
  | rfetch q ds => exact h
  | rapb q ds en =>
    cases en with
    | false => exact h
    | true => rw [Phase.step]; split <;> exact h
  | rbuf q ds d v =>
    cases v with
    | false => exact h
    | true =>
      have hle := h.2
      rw [Phase.step]
      split
      · split
        · trivial
        · rename_i hne
          have hne' : ds.length ≠ q.len.toNat := by simpa using hne
          exact ⟨h.1, by rw [List.length_append]; simp only [List.length_cons, List.length_nil]; omega⟩
      · exact h
  | rerr q n v =>
    cases v with
    | false => exact h
    | true =>
      have hle := h.2
      rw [Phase.step]
      split
      · split
        · trivial
        · rename_i hne
          have hne' : n ≠ q.len.toNat := by simpa using hne
          exact ⟨h.1, by omega⟩
      · exact h

/-- One clock edge of the bridge is one step of the transaction machine. -/
theorem rel_posedge {s : State P} {ph : Phase P} (h : Rel s ph) (i : In P) : Rel (posedge s i) (ph.step i) where
  ok := ok_step h.ok i
  apbState := (apbBlock_rel h i).1
  apb := (apbBlock_rel h i).2
  b := bBlock_rel h i
  r := rBlock_rel h i
  txn := txnBlock_rel h i

theorem bridge_simulation (P : Params) : Simulation (bridge P) (engine P) Rel where
  out i h := out_rel h i
  step i h := rel_posedge h i

/-- Reset forgets every transaction. -/
theorem rel_reset {s : State P} (h : IsReset s) : Rel s .idle := by
  obtain ⟨s₀, rfl⟩ := h
  exact ⟨trivial, rfl, fun x => by cases x <;> rfl, rfl, rfl, rfl⟩

/-- Every reachable state is that of some phase. -/
theorem Reachable.rel {s : State P} (h : Reachable s) : ∃ ph, Rel s ph :=
  (bridge_simulation P).reachable (fun _ hs => ⟨.idle, rel_reset hs⟩) h

theorem Reachable.posedge {s : State P} (h : Reachable s) (i : In P) : Reachable (posedge s i) :=
  Machine.ReachableUnder.step h trivial

theorem Reachable.run {s : State P} (h : Reachable s) (is : List (In P)) : Reachable ((bridge P).run s is) :=
  Machine.ReachableUnder.run h (fun _ _ => trivial)

/-- A trace of the bridge is the trace of the transaction machine from the phase the bridge is in. -/
theorem trace_eq {s : State P} {ph : Phase P} (h : Rel s ph) (is : List (In P)) :
    (bridge P).trace s is = (engine P).trace ph is :=
  (bridge_simulation P).trace_eq h is

theorem rel_run {s : State P} {ph : Phase P} (h : Rel s ph) (is : List (In P)) :
    Rel ((bridge P).run s is) ((engine P).run ph is) :=
  (bridge_simulation P).run h is

end Burst

end AxiApb
