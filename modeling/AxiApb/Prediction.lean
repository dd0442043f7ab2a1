import AxiApb.BurstSafety
import AxiApb.Crossing
import AxiApb.Simple

/-!
# The prediction functions of the test environment

`bridge_uvm_env_pkg` predicts which requests the bridges reject and where the beats of a burst go.  The prediction of
a rejection is the parameter check of the bridge it is made for, and the predicted address of beat `b` is the one that
the burst bridge has after `b` completed transfers, although the one is a product and the other a register that is
incremented.
-/

namespace AxiApb

open Clocked

/-! ### The functions -/

inductive BridgeDecodeKind
  | simple | burst
deriving DecidableEq

/-- `bridge_expected_axsize` -/
def bridgeExpectedAxsize (dw : Nat) : BitVec 3 :=
  if dw = 1024 then 0b111#3
  else if dw = 512 then 0b110#3
  else if dw = 256 then 0b101#3
  else if dw = 128 then 0b100#3
  else if dw = 64 then 0b011#3
  else if dw = 32 then 0b010#3
  else if dw = 16 then 0b001#3
  else 0b000#3

def bridgeBurstCrossesApbSel (firstAddr lastAddr : BitVec 32) (selBit : Nat) : Bool :=
  firstAddr.getLsbD selBit != lastAddr.getLsbD selBit

/-- The common body of `bridge_aw_txn_decerr` and `bridge_ar_txn_decerr`. -/
def bridgeTxnDecerr (k : BridgeDecodeKind) (dw selBit : Nat) (addr : BitVec 32) (len : BitVec 8) (sz : BitVec 3)
    (burst : BitVec 2) : Bool :=
  let maxOff : BitVec 32 := len.setWidth 32 <<< sz
  let lastAddr := addr + maxOff
  match k with
  | .simple => len != 0#8 || sz != bridgeExpectedAxsize dw
  | .burst =>
    sz != bridgeExpectedAxsize dw || decide (burst > 0b01#2) ||
      (burst == 0b01#2 && bridgeBurstCrossesApbSel addr lastAddr selBit)

def bridgeAwTxnDecerr := bridgeTxnDecerr
def bridgeArTxnDecerr := bridgeTxnDecerr

def bridgeBeatAddr (start beat : BitVec 32) (axsize : BitVec 3) (axburst : BitVec 2) : BitVec 32 :=
  let step := 1#32 <<< axsize
  if axburst == 0b00#2 then start else start + beat * step

/-- `port_decode`; port 1 is `true`. -/
def portDecode (addr : BitVec 32) (selBit : Nat) : Bool := addr.getLsbD selBit

def trunc64 (val : BitVec 64) : BitVec 64 := val

/-! ### Rejections -/

section
variable {idWidth w bit : Nat}

theorem bridgeExpectedAxsize_eq : bridgeExpectedAxsize w = (windowed idWidth w bit).expectedAxsize := rfl

/-- For the burst bridge the prediction is its parameter check. -/
theorem bridgeTxnDecerr_burst (addr : BitVec 32) (len : BitVec 8) (size : BitVec 3) (burst : BitVec 2) :
    bridgeTxnDecerr .burst w bit addr len size burst =
      Burst.paramErr (P := windowed idWidth w bit) addr len size burst := by
  simp only [bridgeTxnDecerr, Burst.paramErr, Burst.crossApb, Burst.lastAddr, Burst.maxOffset,
    bridgeBurstCrossesApbSel, ← bridgeExpectedAxsize_eq, Bool.bne_eq_xor]

theorem bridgeTxnDecerr_simple (addr : BitVec 32) (len : BitVec 8) (size : BitVec 3) (burst : BitVec 2) :
    bridgeTxnDecerr .simple w bit addr len size burst = Simple.paramErr (windowed idWidth w bit) len size := rfl

/-! ### Addresses -/

theorem Req.beatAddr_predicted {q : Req (windowed idWidth w bit)} (hq : q.Legal) (n : Nat) :
    q.beatAddr n = bridgeBeatAddr q.addr (BitVec.ofNat 32 n) q.size q.burst := by
  unfold beatAddr bridgeBeatAddr
  rcases hq.2.1 with hb | hb
  · rw [hb]
    rfl
  · have hoff : BitVec.ofNat 32 (n * 2 ^ q.size.toNat) = BitVec.ofNat 32 n * (1#32 <<< q.size) := by
      rw [BitVec.ofNat_mul, one_shiftLeft]
    rw [hb, if_pos rfl, hoff]
    rfl

/-- On the trace `tr` from the handshake of `q` to the state `s`: the completed transfers, the transfer in progress
and the address register have the predicted addresses. -/
structure AsPredicted (q : Req (windowed idWidth w bit)) (tr : List (Cycle (windowed idWidth w bit)))
    (s : Burst.State (windowed idWidth w bit)) : Prop where
  done : ∀ b x, (xfers tr)[b]? = some x → x.ctrl.paddr = bridgeBeatAddr q.addr (BitVec.ofNat 32 b) q.size q.burst
  driven : ∀ x, (s.port x).psel = true →
    (s.port x).paddr = bridgeBeatAddr q.addr (BitVec.ofNat 32 (xfers tr).length) q.size q.burst
  addrReg : s.txnActive = true →
    s.axiAddrReg = bridgeBeatAddr q.addr (BitVec.ofNat 32 (xfers tr).length) q.size q.burst

end

namespace Burst

section
variable {idWidth w bit : Nat} {s : State (windowed idWidth w bit)} {ph : Phase (windowed idWidth w bit)}
  {q : Req (windowed idWidth w bit)} {tr : List (Cycle (windowed idWidth w bit))}

private theorem WSeen.xfers_length {ws xs : List (WBeat (windowed idWidth w bit))} {es : List Bool}
    {bs : List (BBeat (windowed idWidth w bit))} (h : WSeen q tr ws xs es bs) : (xfers tr).length = es.length := by
  rw [← h.errs, List.length_map]

/-- The addresses of the completed writes, as the trace shows them. -/
private theorem WSeen.paddr {ws xs : List (WBeat (windowed idWidth w bit))} {es : List Bool}
    {bs : List (BBeat (windowed idWidth w bit))} (h : WSeen q tr ws xs es bs) (hq : q.Legal) {b : Nat}
    {x : Xfer (windowed idWidth w bit)} (hx : (xfers tr)[b]? = some x) : x.ctrl.paddr = q.beatAddr b := by
  have hdrive := congrArg (fun l => l[b]?) h.drive
  simp only [List.getElem?_map, hx, Option.map_some, if_pos hq, Req.writes, List.getElem?_mapIdx] at hdrive
  cases hw : xs[b]? with
  | none =>
    rw [hw] at hdrive
    cases hdrive
  | some v =>
    rw [hw] at hdrive
    have hctrl : x.ctrl = q.writeCtrl b v := congrArg Prod.snd (Option.some.inj hdrive)
    rw [hctrl]
    rfl

private theorem RSeen.paddr {ds : List (ReadDone (windowed idWidth w bit))}
    {rs : List (RBeat (windowed idWidth w bit))} (h : RSeen tr (q.reads ds) rs) {b : Nat}
    {x : Xfer (windowed idWidth w bit)} (hx : (xfers tr)[b]? = some x) : x.ctrl.paddr = q.beatAddr b := by
  rw [h.x, Req.reads, List.getElem?_mapIdx] at hx
  cases hd : ds[b]? with
  | none =>
    rw [hd] at hx
    cases hx
  | some d =>
    rw [hd] at hx
    cases hx
    rfl

/-- What the phase of a write says about addresses. -/
private theorem asPredicted_write (hr : Rel s ph) (ht : WTrack q tr ph) (hq : q.Legal) : AsPredicted q tr s where
  done b x hx := by
    rw [← Req.beatAddr_predicted hq]
    cases ph with
    | idle =>
      obtain ⟨ws, es, -, h⟩ := ht
      exact h.paddr hq hx
    | wdata | wapb | wresp => exact ht.2.paddr hq hx
    | rfetch | rapb | rbuf | rerr => exact ht.elim
  driven x hsel := by
    obtain ⟨q', n, hbeat, -, ha⟩ := paddr_rel hr hsel
    obtain ⟨rfl, rfl⟩ := beat_of_write hr.ok ht hbeat
    rw [ha, Req.beatAddr_predicted hq]
  addrReg hact := by
    have htxn := hr.txn
    have hok := hr.ok
    rw [← Req.beatAddr_predicted hq]
    cases ph with
    | idle => rw [show s.txnActive = false from htxn] at hact; cases hact
    | wdata q' ws es =>
      obtain ⟨rfl, h⟩ := ht
      rw [htxn.addr hq, h.xfers_length, hok.2, if_pos hq]
    | wapb q' ws v es en =>
      obtain ⟨rfl, h⟩ := ht
      rw [htxn.addr hq, h.xfers_length, hok.2.2]
    | wresp q' ws es v =>
      obtain ⟨rfl, h⟩ := ht
      rw [htxn.addr hq, h.xfers_length, hok.2.2, if_pos hq]
    | rfetch | rapb | rbuf | rerr => exact ht.elim

private theorem asPredicted_read (hr : Rel s ph) (ht : RTrack q tr ph) (hq : q.Legal) : AsPredicted q tr s where
  done b x hx := by
    rw [← Req.beatAddr_predicted hq]
    cases ph with
    | idle =>
      rw [RTrack, if_pos hq] at ht
      obtain ⟨ds, -, h⟩ := ht
      exact h.paddr hx
    | rfetch | rapb | rbuf => exact ht.2.paddr hx
    | rerr =>
      obtain ⟨rfl, -⟩ := ht
      exact absurd hq hr.ok.1
    | wdata | wapb | wresp => exact ht.elim
  driven x hsel := by
    obtain ⟨q', n, hbeat, -, ha⟩ := paddr_rel hr hsel
    obtain ⟨rfl, rfl⟩ := beat_of_read ht hbeat
    rw [ha, Req.beatAddr_predicted hq]
  addrReg hact := by
    have htxn := hr.txn
    rw [← Req.beatAddr_predicted hq]
    cases ph with
    | idle => rw [show s.txnActive = false from htxn] at hact; cases hact
    | rfetch q' ds | rapb q' ds en =>
      obtain ⟨rfl, h⟩ := ht
      rw [htxn.1.addr hq, h.x, Req.reads, List.length_mapIdx]
    | rbuf q' ds d v =>
      obtain ⟨rfl, h⟩ := ht
      rw [htxn.1.addr hq, h.x, Req.reads, List.length_mapIdx, List.length_append]
      rfl
    | rerr =>
      obtain ⟨rfl, -⟩ := ht
      exact absurd hq hr.ok.1
    | wdata | wapb | wresp => exact ht.elim

private theorem legal_of_paramErr (h : paramErr q.addr q.len q.size q.burst = false) : q.Legal := by
  rw [Req.paramErr_eq] at h
  simpa using h

end

end Burst

/-- The prediction functions agree with both bridges: on what is rejected, and for each burst that is not rejected on
the address of every beat. -/
theorem prediction_agrees (idWidth w bit : Nat) :
    (∀ i : In (windowed idWidth w bit),
      bridgeAwTxnDecerr .burst w bit i.awaddr i.awlen i.awsize i.awburst = Burst.awParamErr i ∧
      bridgeArTxnDecerr .burst w bit i.araddr i.arlen i.arsize i.arburst = Burst.arParamErr i ∧
      bridgeAwTxnDecerr .simple w bit i.awaddr i.awlen i.awsize i.awburst =
        Simple.paramErr (windowed idWidth w bit) i.awlen i.awsize ∧
      bridgeArTxnDecerr .simple w bit i.araddr i.arlen i.arsize i.arburst =
        Simple.paramErr (windowed idWidth w bit) i.arlen i.arsize) ∧
    ∀ s : Burst.State (windowed idWidth w bit), Burst.Reachable s → ∀ a is,
      (∀ c ∈ (Burst.bridge _).trace (Burst.posedge s a) is, reqTaken c = false) →
      (Burst.awHandshake s a = true → Burst.awParamErr a = false →
        AsPredicted a.awReq ((Burst.bridge _).trace s (a :: is)) ((Burst.bridge _).run s (a :: is))) ∧
      (Burst.arHandshake s a = true → Burst.arParamErr a = false →
        AsPredicted a.arReq ((Burst.bridge _).trace s (a :: is)) ((Burst.bridge _).run s (a :: is))) := by
  refine ⟨fun i => ⟨bridgeTxnDecerr_burst .., bridgeTxnDecerr_burst .., bridgeTxnDecerr_simple ..,
    bridgeTxnDecerr_simple ..⟩, fun s hs a is hnext => ⟨?_, ?_⟩⟩
  · intro haw herr
    obtain ⟨ph, hr, ht⟩ := Burst.write_track hs haw hnext
    exact Burst.asPredicted_write hr ht (Burst.legal_of_paramErr (q := a.awReq) herr)
  · intro har herr
    obtain ⟨ph, hr, ht⟩ := Burst.read_track hs har hnext
    exact Burst.asPredicted_read hr ht (Burst.legal_of_paramErr (q := a.arReq) herr)

/-- A read of three beats of 16 bytes, in the access phase of its second beat. -/
theorem prediction_agrees_read :
    let r := In.ready (windowed 4 128 31)
    let a := r.withAr ⟨5, 0x80001000, 2, 0b100, 0b01, 0⟩
    let is := [r, r, r, r, r, r, r]
    AsPredicted a.arReq ((Burst.bridge _).trace (Burst.State.zero _) (a :: is))
        ((Burst.bridge _).run (Burst.State.zero _) (a :: is)) ∧
      (((Burst.bridge _).run (Burst.State.zero _) (a :: is)).port true).paddr =
        bridgeBeatAddr 0x80001000 1 0b100 0b01 :=
  ⟨((prediction_agrees 4 128 31).2 _ (Burst.reachable_zero _) _ _ (by decide +kernel)).2 (by decide) (by decide),
    by decide +kernel⟩

end AxiApb
