import AxiApb.Contract
import AxiApb.ScoreboardQueues

/-!
# The scoreboard beside a bridge that works

The monitors report a bridge that follows the design contract, with slaves that store what is written to them.  Then
all writes and all transfers are as predicted, and the shadow of the scoreboard is the memory of the slaves.  But
`write_axi_rd` compares `RDATA` with the shadow in beats with `PSLVERR` too, where `one_rd_hit` lets any data pass: the
scoreboard is silent just if the slaves return the stored word with every error (`no_alarm_iff`).
-/

namespace AxiApb

namespace Scoreboard

open Pairing

/-! ### The slaves -/

section
variable (c : Cfg)

/-- The word that the memories hold for a transfer. -/
def held (m : Shadow) (obs : ApbTr) : BitVec 64 := (m (ramKeyOf c obs.port (obs.paddr.setWidth 32))).getD 0

/-- A completed write without an error is stored, all of `PWDATA`. -/
def latch (m : Shadow) (obs : ApbTr) : Shadow :=
  if obs.pwrite = true ∧ obs.pslverr = false then
    Function.update m (ramKeyOf c obs.port (obs.paddr.setWidth 32)) (some obs.pwdata)
  else m

/-- Reads whose `PSLVERR` is `err` return the stored word. -/
def Answers (err : Bool) : Shadow → List ApbTr → Prop
  | _, [] => True
  | m, obs :: obss =>
    (obs.pwrite = false → obs.pslverr = err → obs.prdata = held c m obs) ∧ Answers err (latch c m obs) obss

instance Answers.decidable (err : Bool) : ∀ m obss, Decidable (Answers c err m obss)
  | _, [] => .isTrue trivial
  | m, obs :: obss => @instDecidableAnd _ _ _ (Answers.decidable err (latch c m obs) obss)

end

/-! ### The bridge -/

/-- A transaction as the monitors see it: the request, the beats of the other channels and the APB transfers. -/
inductive Txn (idWidth : Nat)
  | write (q : Req (contract idWidth)) (ws : List (WBeat (contract idWidth))) (b : BBeat (contract idWidth))
    (obss : List ApbTr)
  | read (q : Req (contract idWidth)) (rs : List (RBeat (contract idWidth))) (obss : List ApbTr)

section
variable {idWidth : Nat}

/-- The lines of transfer `n` that a write and a read have in common. -/
def AtBeat (q : Req (contract idWidth)) (n : Nat) (obs : ApbTr) : Prop :=
  obs.port = portIx q.port ∧ obs.paddr = (q.address n).setWidth 64

/-- A supported write: its beats, one transfer for each, and the response. -/
structure WriteServed (q : Req (contract idWidth)) (ws : List (WBeat (contract idWidth)))
    (b : BBeat (contract idWidth)) (obss : List ApbTr) : Prop where
  beats : ws.length = writeBeats q.len ws
  transfers : obss.length = ws.length
  lines : ∀ n w obs, ws[n]? = some w → obss[n]? = some obs →
    AtBeat q n obs ∧ obs.pwrite = true ∧ obs.pwdata = w.wdata ∧ obs.pstrb = w.wstrb.setWidth 8
  slverr : (∃ obs ∈ obss, obs.pslverr = true) ∨ Malformed q.len ws → b.bresp = respSlverr
  okay : ¬ ((∃ obs ∈ obss, obs.pslverr = true) ∨ Malformed q.len ws) → b.bresp = respOkay

/-- A supported read: one transfer for each beat, whose data and error the beat returns. -/
structure ReadServed (q : Req (contract idWidth)) (rs : List (RBeat (contract idWidth))) (obss : List ApbTr) :
    Prop where
  beats : rs.length = q.len.toNat + 1
  transfers : obss.length = q.len.toNat + 1
  lines : ∀ n obs, obss[n]? = some obs → AtBeat q n obs ∧ obs.pwrite = false
  returns : ∀ (n : Nat) (r : RBeat (contract idWidth)) (obs : ApbTr), rs[n]? = some r → obss[n]? = some obs →
    r.rdata = obs.prdata ∧ r.rresp = if obs.pslverr then respSlverr else respOkay

/-- The write that the AXI monitor collects. -/
def wrTr (q : Req (contract idWidth)) (ws : List (WBeat (contract idWidth))) (b : BBeat (contract idWidth)) :
    AxiWrTr :=
  ⟨q.addr.setWidth 64, q.len, q.size, q.burst, b.bresp, ws.map (·.wdata), ws.map (·.wstrb.setWidth 8)⟩

/-- The read that it collects; the response is that of the last beat. -/
def rdTr (q : Req (contract idWidth)) (rs : List (RBeat (contract idWidth))) : AxiRdTr :=
  ⟨q.addr.setWidth 64, q.len, q.size, q.burst, (rs.getLast?.map (·.rresp)).getD 0, rs.map (·.rdata)⟩

namespace Txn

def transfers : Txn idWidth → List ApbTr
  | .write _ _ _ obss | .read _ _ obss => obss

/-- What the design contract says of a transaction. -/
def Follows : Txn idWidth → Prop
  | .write q ws b obss =>
    (q.Supported → WriteServed q ws b obss) ∧ (¬ q.Supported → obss = [] ∧ b.bresp = respDecerr)
  | .read q rs obss =>
    (q.Supported → ReadServed q rs obss) ∧
      (¬ q.Supported → obss = [] ∧ rs.length = q.len.toNat + 1 ∧ ∀ r ∈ rs, r.rdata = 0 ∧ r.rresp = respDecerr)

/-- What the AXI monitor delivers. -/
def axi : Txn idWidth → Call
  | .write q ws b _ => .axiWr (wrTr q ws b)
  | .read q rs _ => .axiRd (rdTr q rs)

def port : Txn idWidth → Bool
  | .write q _ _ _ | .read q _ _ => q.port

/-- The transfers are observed before the transaction that causes them. -/
def calls (t : Txn idWidth) : List Call := t.transfers.map (.apb t.port) ++ [t.axi]

end Txn

end

/-! ### Silence -/

/-- The scoreboard of the supported configuration, with memories of any size. -/
structure Cfg.Contract (c : Cfg) : Prop where
  dataWidth : c.dataWidth = 64
  apbSelBit : c.apbSelBit = 31
  decodeKind : c.decodeKind = .burst
  hasScoreboard : c.hasScoreboard = true

/-- The calls of `cs` in the state `s`: no mismatch after any of them, and nothing waits after an AXI transaction. -/
def Silent (c : Cfg) : State → List Call → Prop
  | _, [] => True
  | s, k :: cs => (call c s k).mismatch = 0 ∧ (k.isAxi = true → (call c s k).Idle) ∧ Silent c (call c s k) cs

section
variable {c : Cfg} {s : State} {m : Shadow} {err p : Bool} {obss : List ApbTr}

theorem answers_append (obss' : List ApbTr) : Answers c err m (obss ++ obss') ↔
    Answers c err m obss ∧ Answers c err (obss.foldl (latch c) m) obss' := by
  induction obss generalizing m with
  | nil => simp [Answers]
  | cons obs obss ih => simp only [List.cons_append, Answers, ih, List.foldl_cons, and_assoc]

theorem answers_writes (h : ∀ obs ∈ obss, obs.pwrite = true) : Answers c err m obss := by
  induction obss generalizing m with
  | nil => trivial
  | cons obs obss ih =>
    refine ⟨fun hr => ?_, ih fun o ho => h o (List.mem_cons_of_mem _ ho)⟩
    rw [h obs (List.mem_cons_self ..)] at hr
    cases hr

/-- Reads leave the memories as they are. -/
theorem foldl_latch_reads (h : ∀ obs ∈ obss, obs.pwrite = false) : obss.foldl (latch c) m = m := by
  induction obss with
  | nil => rfl
  | cons obs obss ih =>
    have hobs : latch c m obs = m := if_neg (by simp [h obs (List.mem_cons_self ..)])
    rw [List.foldl_cons, hobs]
    exact ih fun o ho => h o (List.mem_cons_of_mem _ ho)

theorem answers_reads (h : ∀ obs ∈ obss, obs.pwrite = false) :
    Answers c err m obss ↔ ∀ obs ∈ obss, obs.pslverr = err → obs.prdata = held c m obs := by
  induction obss with
  | nil => simp [Answers]
  | cons obs obss ih =>
    have hr := h obs (List.mem_cons_self ..)
    have hobs : latch c m obs = m := if_neg (by simp [hr])
    rw [Answers, hobs, ih fun o ho => h o (List.mem_cons_of_mem _ ho), List.forall_mem_cons]
    exact and_congr_left' ⟨fun h => h hr, fun h _ => h⟩

theorem silent_append (cs cs' : List Call) :
    Silent c s (cs ++ cs') ↔ Silent c s cs ∧ Silent c (cs.foldl (call c) s) cs' := by
  induction cs generalizing s with
  | nil => simp [Silent]
  | cons k cs ih => simp only [List.cons_append, Silent, ih, List.foldl_cons, and_assoc]

theorem silent_singleton (k : Call) :
    Silent c s [k] ↔ (call c s k).mismatch = 0 ∧ (k.isAxi = true → (call c s k).Idle) := by
  simp [Silent]

/-! ### Observations -/

/-- Nothing waits; the shadow is `m`. -/
def quiet (m : Shadow) : State := { State.new with slvShadow := m }

theorem quiet_idle (m : Shadow) (n : Nat) : ((quiet m).count n).Idle := fun _ => ⟨rfl, rfl, rfl, rfl⟩

/-- Transfers wait while nothing is predicted. -/
theorem call_apb (hc : c.hasScoreboard = true) (hw : s.predWr p = []) (hr : s.predRd p = []) (obs : ApbTr) :
    call c s (.apb p obs) =
      if obs.pwrite then { s with bufWrObs := Function.update s.bufWrObs p (s.bufWrObs p ++ [obs]) }
      else { s with bufRdObs := Function.update s.bufRdObs p (s.bufRdObs p ++ [obs]) } := by
  rw [call_ingest, ingestApb, hc, if_neg (by decide)]
  split
  · exact reconcile_of_empty (Or.inl hw) _
  · exact reconcile_of_empty (Or.inl hr) _

theorem inOrder_only {δ : Type*} (l : List δ) : inOrder [false, true] (only p l) = l.map (p, ·) := by
  cases p <;> simp [inOrder, only]

/-- The state in which the transfers `obss` at port `p` wait, which are all writes or all reads. -/
def waiting (m : Shadow) (p w : Bool) (obss : List ApbTr) : State :=
  if w then { quiet m with bufWrObs := only p obss } else { quiet m with bufRdObs := only p obss }

theorem waiting_nil (m : Shadow) (p w : Bool) : waiting m p w [] = quiet m := by
  have hnone : only p ([] : List ApbTr) = fun _ => [] := funext fun r => ite_self _
  cases w <;> simp [waiting, hnone] <;> rfl

theorem observe {w : Bool} (hc : c.hasScoreboard = true) (h : ∀ obs ∈ obss, obs.pwrite = w) :
    (obss.map (.apb p)).foldl (call c) (quiet m) = waiting m p w obss ∧
      Silent c (quiet m) (obss.map (.apb p)) := by
  induction obss using List.reverseRecOn with
  | nil => exact ⟨(waiting_nil m p w).symm, trivial⟩
  | append_singleton obss obs ih =>
    obtain ⟨hrun, hsil⟩ := ih fun o ho => h o (List.mem_append_left _ ho)
    have hobs : call c (waiting m p w obss) (.apb p obs) = waiting m p w (obss ++ [obs]) := by
      rw [call_apb hc (by cases w <;> rfl) (by cases w <;> rfl), h obs (by simp)]
      cases w <;> simp [waiting, update_only, only]
    have hzero : (waiting m p w (obss ++ [obs])).mismatch = 0 := by
      cases w <;> rfl
    rw [List.map_append, silent_append, List.foldl_append, hrun, List.map_singleton, silent_singleton,
      List.foldl_cons, List.foldl_nil, hobs]
    exact ⟨rfl, hsil, hzero, fun h => by cases h⟩

/-! ### Comparing what waits -/

private theorem sum_eq_zero {f : Bool → ApbTr × ApbTr → Nat} {l : List (ApbTr × ApbTr)} (h : ∀ x ∈ l, f p x = 0) :
    ((l.map (p, ·)).map fun x => f x.1 x.2).sum = 0 := by
  rw [List.map_map, List.sum_eq_zero]
  intro n hn
  obtain ⟨x, hx, rfl⟩ := List.mem_map.1 hn
  exact h x hx

/-- The predictions of a transaction arrive after its transfers, which are all writes. -/
theorem reconcileWrPorts_waiting {ps : List ApbTr} (hlen : ps.length = obss.length)
    (hzero : ∀ x ∈ ps.zip obss, wrDiffs c p x = 0) :
    reconcileWrPorts c { waiting m p true obss with predWr := only p ps } = quiet (obss.foldl (commit c) m) := by
  have hpairs : wrPairs { waiting m p true obss with predWr := only p ps } = (ps.zip obss).map (p, ·) := by
    rw [← inOrder_only, ← zip_only]
    rfl
  have hcommit : ((ps.zip obss).map (p, ·)).foldl (fun g x => commit c g x.2.2) m = obss.foldl (commit c) m := by
    have hsnd : ((ps.zip obss).map Prod.snd).foldl (commit c) m = obss.foldl (commit c) m := by
      rw [List.map_snd_zip hlen.ge]
    rw [← hsnd, List.foldl_map, List.foldl_map]
  rw [reconcileWrPorts_eq, hpairs, sum_eq_zero hzero, State.count_zero]
  exact State.ext (drop_only hlen) rfl (drop_only hlen.symm) rfl hcommit rfl

/-- The same for reads, with `n` mismatches in the data of the transaction. -/
theorem reconcileRdPorts_waiting {ps : List ApbTr} (hlen : ps.length = obss.length)
    (hzero : ∀ x ∈ ps.zip obss, rdDiffs c p x = 0) (n : Nat) :
    reconcileRdPorts c { (waiting m p false obss).count n with predRd := only p ps } = (quiet m).count n := by
  have hpairs : rdPairs { (waiting m p false obss).count n with predRd := only p ps } = (ps.zip obss).map (p, ·) := by
    rw [← inOrder_only, ← zip_only]
    rfl
  rw [reconcileRdPorts_eq, hpairs, sum_eq_zero hzero, State.count_zero]
  exact State.ext rfl (drop_only hlen) rfl (drop_only hlen.symm) rfl rfl

end

/-! ### Predictions -/

section
variable {idWidth : Nat} {c : Cfg} {m : Shadow} {q : Req (contract idWidth)} {obss : List ApbTr}

/-- The prediction of a rejection is the word of the contract. -/
theorem bridgeTxnDecerr_contract (q : Req (contract idWidth)) :
    bridgeTxnDecerr .burst 64 31 q.addr q.len q.size q.burst = !decide q.Supported := by
  have hburst : bridgeTxnDecerr .burst 64 31 q.addr q.len q.size q.burst =
      Burst.paramErr (P := contract idWidth) q.addr q.len q.size q.burst := bridgeTxnDecerr_burst ..
  rw [hburst, Req.paramErr_eq, decide_eq_decide.2 Req.legal_iff_supported]

theorem bridgeBeatAddr_contract (hq : q.Supported) (n : Nat) :
    bridgeBeatAddr q.addr (BitVec.ofNat 32 n) q.size q.burst = q.address n := by
  have hbeat : q.beatAddr n = bridgeBeatAddr q.addr (BitVec.ofNat 32 n) q.size q.burst :=
    Req.beatAddr_predicted (Req.legal_iff_supported.2 hq) n
  rw [← hbeat, Req.beatAddr_contract hq.1]

private theorem setWidth_setWidth_addr (a : BitVec 32) : (a.setWidth 64).setWidth 32 = a := by
  rw [BitVec.setWidth_setWidth_of_le _ (by decide), BitVec.setWidth_eq]

theorem Cfg.Contract.decerr (hc : c.Contract) (q : Req (contract idWidth)) :
    bridgeTxnDecerr c.decodeKind c.dataWidth.toNat c.apbSelBit.toNat ((q.addr.setWidth 64).setWidth 32) q.len q.size
      q.burst = !decide q.Supported := by
  rw [hc.decodeKind, hc.dataWidth, hc.apbSelBit, setWidth_setWidth_addr]
  exact bridgeTxnDecerr_contract q

theorem awIllegal_wrTr (hc : c.Contract) (q : Req (contract idWidth)) (ws : List (WBeat (contract idWidth)))
    (b : BBeat (contract idWidth)) : awIllegal c (wrTr q ws b) = !decide q.Supported := by
  rw [awIllegal, bridgeAwTxnDecerr]
  exact hc.decerr q

theorem arIllegal_rdTr (hc : c.Contract) (q : Req (contract idWidth)) (rs : List (RBeat (contract idWidth))) :
    arIllegal c (rdTr q rs) = !decide q.Supported := by
  rw [arIllegal, bridgeArTxnDecerr]
  exact hc.decerr q

theorem Cfg.Contract.truncDw (hc : c.Contract) (d : BitVec 64) : truncDw c d = d := by
  rw [Scoreboard.truncDw, hc.dataWidth, if_neg (by decide)]

/-- All beats of a burst are predicted for the port of the request. -/
theorem Cfg.Contract.portDecode (hc : c.Contract) (hq : q.Supported) {n : Nat} (hn : n ≤ q.len.toNat) :
    portDecode (q.address n) c.apbSelBit.toNat = q.port := by
  rw [hc.apbSelBit]
  exact hq.window hn

/-! ### Writes -/

variable {ws : List (WBeat (contract idWidth))} {b : BBeat (contract idWidth)}

theorem writeBeats_le (len : BitVec 8) (ws : List (WBeat (contract idWidth))) : writeBeats len ws ≤ len.toNat + 1 := by
  unfold writeBeats
  split
  · exact Nat.min_le_left _ _
  · exact Nat.le_refl _

/-- A write with its `WLAST` in the right place has all its beats. -/
theorem WriteServed.length_eq (h : WriteServed q ws b obss) (hm : ¬ Malformed q.len ws) :
    ws.length = q.len.toNat + 1 := by
  have hbeats := h.beats
  unfold writeBeats at hbeats
  split at hbeats
  · rename_i j hj
    obtain ⟨hlt, hlast, -⟩ := List.findIdx?_eq_some_iff_getElem.1 hj
    by_contra hne
    exact hm (Or.inl ⟨j, ws[j], List.getElem?_eq_getElem hlt, by omega, hlast⟩)
  · exact hbeats

theorem bridgeBeatAddr_monitored (hq : q.Supported) (n : Nat) :
    bridgeBeatAddr ((q.addr.setWidth 64).setWidth 32) (BitVec.ofNat 32 n) q.size q.burst = q.address n := by
  rw [setWidth_setWidth_addr, bridgeBeatAddr_contract hq]

theorem predictWr_contract (hc : c.Contract) (hq : q.Supported) {n : Nat} (hn : n ≤ q.len.toNat) :
    predictWr c (wrTr q ws b) n = (q.port, ⟨portIx q.port, (q.address n).setWidth 64, true,
      (ws.map (·.wdata)).getD n 0, (ws.map (·.wstrb.setWidth 8)).getD n 0, 0, false⟩) := by
  rw [predictWr]
  simp only [wrTr, bridgeBeatAddr_monitored hq, hc.portDecode hq hn]

/-- The predictions of a write. -/
def wrPredicted (c : Cfg) (q : Req (contract idWidth)) (ws : List (WBeat (contract idWidth)))
    (b : BBeat (contract idWidth)) : List ApbTr :=
  (List.range ws.length).map fun n => (predictWr c (wrTr q ws b) n).2

theorem WriteServed.predictions_eq (h : WriteServed q ws b obss) (hc : c.Contract) (hq : q.Supported) :
    predictions c (wrTr q ws b) ws.length = (wrPredicted c q ws b).map (q.port, ·) := by
  rw [predictions, wrPredicted, List.map_map]
  refine List.map_congr_left fun n hn => ?_
  have hlt := List.mem_range.1 hn
  have hle := h.beats ▸ writeBeats_le q.len ws
  rw [Function.comp_apply, predictWr_contract hc hq (by omega)]

theorem WriteServed.preds (h : WriteServed q ws b obss) (hc : c.Contract) (hq : q.Supported) :
    wrPreds c (wrTr q ws b) = (wrPredicted c q ws b).map (q.port, ·) ∧ wrErrors c (wrTr q ws b) = 0 := by
  have hill : awIllegal c (wrTr q ws b) = false := by
    rw [awIllegal_wrTr hc, decide_eq_true hq]
    rfl
  have hdata : (wrTr q ws b).wdata.length = ws.length := List.length_map ..
  have hstrb : (wrTr q ws b).wstrb.length = ws.length := List.length_map ..
  rw [wrPreds, wrErrors, hill, ← h.predictions_eq hc hq]
  simp only [Bool.false_eq_true, if_false, hdata, hstrb]
  by_cases hm : (∃ obs ∈ obss, obs.pslverr = true) ∨ Malformed q.len ws
  · have hb : (wrTr q ws b).bresp = 0b10#2 := h.slverr hm
    simp [hb]
  · have hb : (wrTr q ws b).bresp = 0b00#2 := h.okay hm
    have hlen : (wrTr q ws b).awlen.toNat + 1 = ws.length := (h.length_eq fun hmal => hm (Or.inr hmal)).symm
    simp [hb, hlen]

private theorem mem_zip_range {δ ε : Type*} {f : Nat → δ} {k : Nat} {l : List ε} {x : δ × ε}
    (hx : x ∈ ((List.range k).map f).zip l) : ∃ n, n < k ∧ x.1 = f n ∧ l[n]? = some x.2 := by
  obtain ⟨n, hn⟩ := List.mem_iff_getElem?.1 hx
  obtain ⟨hl, hr⟩ := List.getElem?_zip_eq_some.1 hn
  rw [List.getElem?_map] at hl
  by_cases hlt : n < k
  · rw [List.getElem?_range hlt] at hl
    exact ⟨n, hlt, (Option.some.inj hl).symm, hr⟩
  · rw [List.getElem?_eq_none (by simpa using hlt)] at hl
    cases hl

theorem byteMatch_self (we : BitVec 64) (sp : BitVec 8) (dw : BitVec 32) : byteMatch we sp we sp dw = true := by
  simp [byteMatch]

/-- The transfers of a write are the predicted ones. -/
theorem WriteServed.no_diffs (h : WriteServed q ws b obss) (hc : c.Contract) (hq : q.Supported) :
    ∀ x ∈ (wrPredicted c q ws b).zip obss, wrDiffs c q.port x = 0 := by
  intro x hx
  obtain ⟨n, hlt, hpred, hobs⟩ := mem_zip_range hx
  have hle := h.beats ▸ writeBeats_le q.len ws
  obtain ⟨⟨hport, haddr⟩, hwrite, hdata, hstrb⟩ := h.lines n _ _ (List.getElem?_eq_getElem hlt) hobs
  have hd : (ws.map (·.wdata)).getD n 0 = ws[n].wdata := by simp [hlt]
  have hs : (ws.map (·.wstrb.setWidth 8)).getD n 0 = ws[n].wstrb.setWidth 8 := by simp [hlt]
  rw [predictWr_contract hc hq (by omega)] at hpred
  rw [wrDiffs, hpred, hport, haddr, hwrite, hdata, hstrb, hd, hs, byteMatch_self]
  simp

theorem commit_eq_latch (hc : c.Contract) (h : ∀ obs ∈ obss, obs.pwrite = true) :
    obss.foldl (commit c) m = obss.foldl (latch c) m := by
  refine List.foldl_ext _ _ _ fun g obs hobs => ?_
  rw [commit, latch, hc.truncDw]
  cases hs : obs.pslverr <;> simp [h obs hobs]

theorem WriteServed.pwrite (h : WriteServed q ws b obss) : ∀ obs ∈ obss, obs.pwrite = true := by
  intro obs hobs
  obtain ⟨n, hn⟩ := List.mem_iff_getElem?.1 hobs
  have hlt : n < ws.length := h.transfers ▸ (List.getElem?_eq_some_iff.1 hn).1
  exact (h.lines n _ _ (List.getElem?_eq_getElem hlt) hn).2.1

/-- A supported write, after its transfers. -/
theorem WriteServed.call_eq (h : WriteServed q ws b obss) (hc : c.Contract) (hq : q.Supported) :
    call c (waiting m q.port true obss) (.axiWr (wrTr q ws b)) = quiet (obss.foldl (latch c) m) := by
  have hlen : (wrPredicted c q ws b).length = obss.length := by
    rw [wrPredicted, List.length_map, List.length_range, h.transfers]
  have harrive : (waiting m q.port true obss).arrive 0 ((wrPredicted c q ws b).map (q.port, ·)) [] =
      { waiting m q.port true obss with predWr := only q.port (wrPredicted c q ws b) } := by
    rw [State.arrive, State.count_zero, ← lane_only]
    simp [waiting, quiet, State.new]
  rw [call, writeAxiWr_eq hc.hasScoreboard (fun _ => Or.inl rfl), (h.preds hc hq).1, (h.preds hc hq).2, harrive,
    reconcileWrPorts_waiting hlen (h.no_diffs hc hq), commit_eq_latch hc h.pwrite]

/-- A rejected write. -/
theorem call_rejected_write (hc : c.Contract) (hq : ¬ q.Supported) (hb : b.bresp = respDecerr) :
    call c (quiet m) (.axiWr (wrTr q ws b)) = quiet m := by
  have hill : awIllegal c (wrTr q ws b) = true := by
    rw [awIllegal_wrTr hc, decide_eq_false hq]
    rfl
  have hresp : (wrTr q ws b).bresp = 0b11#2 := hb
  simp [call, writeAxiWr, hc.hasScoreboard, hill, State.checkResp, hresp]

/-! ### Reads -/

variable {rs : List (RBeat (contract idWidth))}

/-- The prediction for beat `n` of a read. -/
def predictRd (c : Cfg) (m : Shadow) (t : AxiRdTr) (n : Nat) : Bool × ApbTr :=
  let aa := bridgeBeatAddr (t.addr.setWidth 32) (BitVec.ofNat 32 n) t.arsize t.arburst
  let pidx := portDecode aa c.apbSelBit.toNat
  (pidx, ⟨portIx pidx, aa.setWidth 64, false, 0, pbMaskRd c.dataWidth, shadowPeekRd c (quiet m) (portIx pidx) aa,
    false⟩)

/-- The mismatch of beat `n` of a read with its prediction. -/
def rdataDiff (c : Cfg) (m : Shadow) (t : AxiRdTr) (n : Nat) : Nat :=
  if truncDw c (t.rdata.getD n 0) = (predictRd c m t n).2.prdata then 0 else 1

theorem readBeat_eq (s : State) (t : AxiRdTr) (n : Nat) : readBeat c t s n =
    { s.count (rdataDiff c s.slvShadow t n) with
      predRd := fun p => s.predRd p ++ lane p [predictRd c s.slvShadow t n] } := by
  have hpush : ∀ (s : State) (x : Bool × ApbTr),
      s.pushPredRd x = { s with predRd := fun p => s.predRd p ++ lane p [x] } := fun s x => by
    rw [State.pushPredRd, update_push]
  rw [readBeat]
  simp only [State.check_eq, hpush, beq_iff_eq]
  rfl

/-- The beats of a read leave the shadow as it is. -/
theorem foldl_readBeat (s : State) (t : AxiRdTr) (l : List Nat) : l.foldl (readBeat c t) s =
    { s.count (l.map (rdataDiff c s.slvShadow t)).sum with
      predRd := fun p => s.predRd p ++ lane p (l.map (predictRd c s.slvShadow t)) } := by
  induction l generalizing s with
  | nil => simp [State.count_zero]
  | cons n l ih =>
    rw [List.foldl_cons, readBeat_eq, ih, List.map_cons, List.map_cons, List.sum_cons]
    refine State.ext rfl (funext fun p => ?_) rfl rfl rfl ?_
    · exact (List.append_assoc ..).trans (congrArg (s.predRd p ++ ·) (lane_append p [_] _).symm)
    · simp only [State.count, BitVec.ofNat_add, BitVec.add_assoc]

/-- The predictions of a read. -/
def rdPredicted (c : Cfg) (m : Shadow) (q : Req (contract idWidth)) (rs : List (RBeat (contract idWidth))) :
    List ApbTr :=
  (List.range (q.len.toNat + 1)).map fun n => (predictRd c m (rdTr q rs) n).2

theorem predictRd_contract (hc : c.Contract) (hq : q.Supported) {n : Nat} (hn : n ≤ q.len.toNat) :
    predictRd c m (rdTr q rs) n = (q.port, ⟨portIx q.port, (q.address n).setWidth 64, false, 0, pbMaskRd c.dataWidth,
      (m (ramKeyOf c (portIx q.port) (q.address n))).getD 0, false⟩) := by
  have hpeek : ∀ k aa, shadowPeekRd c (quiet m) k aa = (m (ramKeyOf c k aa)).getD 0 := by
    intro k aa
    have hm : (quiet m).slvShadow (ramKeyOf c k aa) = m (ramKeyOf c k aa) := rfl
    rw [shadowPeekRd, hm]
    cases m (ramKeyOf c k aa) with
    | none => exact hc.truncDw 0
    | some v => exact hc.truncDw v
  rw [predictRd]
  simp only [rdTr, bridgeBeatAddr_monitored hq, hc.portDecode hq hn, hpeek]

theorem held_eq {n : Nat} {obs : ApbTr} (h : AtBeat q n obs) :
    held c m obs = (m (ramKeyOf c (portIx q.port) (q.address n))).getD 0 := by
  rw [held, h.1, h.2, setWidth_setWidth_addr]

/-- The transfers of a read are the predicted ones, if the slaves answer reads without an error. -/
theorem ReadServed.no_diffs (h : ReadServed q rs obss) (hc : c.Contract) (hq : q.Supported)
    (hslaves : ∀ obs ∈ obss, obs.pslverr = false → obs.prdata = held c m obs) :
    ∀ x ∈ (rdPredicted c m q rs).zip obss, rdDiffs c q.port x = 0 := by
  intro x hx
  obtain ⟨n, hlt, hpred, hobs⟩ := mem_zip_range hx
  obtain ⟨hat, hread⟩ := h.lines n _ hobs
  rw [predictRd_contract hc hq (by omega), ← held_eq hat] at hpred
  rw [rdDiffs, hpred, hat.1, hat.2, hread, hc.truncDw, hc.truncDw]
  cases hs : x.2.pslverr with
  | true => simp
  | false => simp [hslaves x.2 (List.mem_of_getElem? hobs) hs]

/-- The data mismatches of a read: the beats whose data are not the stored word. -/
theorem ReadServed.rdataDiff_eq (h : ReadServed q rs obss) (hc : c.Contract) (hq : q.Supported) {n : Nat} {obs : ApbTr}
    (hobs : obss[n]? = some obs) : rdataDiff c m (rdTr q rs) n = if obs.prdata = held c m obs then 0 else 1 := by
  have hlt : n < q.len.toNat + 1 := h.transfers ▸ (List.getElem?_eq_some_iff.1 hobs).1
  have hr : n < rs.length := h.beats ▸ hlt
  have hdata : (rdTr q rs).rdata.getD n 0 = obs.prdata := by
    rw [← (h.returns n _ obs (List.getElem?_eq_getElem hr) hobs).1]
    simp [rdTr, hr]
  rw [rdataDiff, predictRd_contract hc hq (by omega), hc.truncDw, hdata, held_eq (h.lines n _ hobs).1]

theorem ReadServed.pwrite (h : ReadServed q rs obss) : ∀ obs ∈ obss, obs.pwrite = false := by
  intro obs hobs
  obtain ⟨n, hn⟩ := List.mem_iff_getElem?.1 hobs
  exact (h.lines n _ hn).2

/-- The number of beats of a read that do not return the stored word. -/
def staleBeats (c : Cfg) (m : Shadow) (q : Req (contract idWidth)) (rs : List (RBeat (contract idWidth))) : Nat :=
  ((List.range (q.len.toNat + 1)).map (rdataDiff c m (rdTr q rs))).sum

theorem ReadServed.staleBeats_eq_zero (h : ReadServed q rs obss) (hc : c.Contract) (hq : q.Supported) :
    staleBeats c m q rs = 0 ↔ ∀ obs ∈ obss, obs.prdata = held c m obs := by
  rw [staleBeats, List.sum_eq_zero_iff, List.forall_mem_map]
  constructor
  · intro hzero obs hobs
    obtain ⟨n, hn⟩ := List.mem_iff_getElem?.1 hobs
    have hlt : n < q.len.toNat + 1 := h.transfers ▸ (List.getElem?_eq_some_iff.1 hn).1
    have hdiff := hzero n (List.mem_range.2 hlt)
    rw [h.rdataDiff_eq hc hq hn] at hdiff
    by_contra hne
    rw [if_neg hne] at hdiff
    cases hdiff
  · intro hheld n hn
    have hlt : n < obss.length := h.transfers ▸ List.mem_range.1 hn
    rw [h.rdataDiff_eq hc hq (List.getElem?_eq_getElem hlt), if_pos (hheld _ (List.getElem_mem hlt))]

theorem staleBeats_le (c : Cfg) (m : Shadow) (q : Req (contract idWidth)) (rs : List (RBeat (contract idWidth))) :
    staleBeats c m q rs ≤ 256 := by
  have hone : ∀ n ∈ (List.range (q.len.toNat + 1)).map (rdataDiff c m (rdTr q rs)), n ≤ 1 := by
    rw [List.forall_mem_map]
    intro n _
    rw [rdataDiff]
    split <;> decide
  have hsum := List.sum_le_card_nsmul _ 1 hone
  rw [List.length_map, List.length_range, smul_eq_mul, Nat.mul_one] at hsum
  have hlen := q.len.isLt
  exact hsum.trans (by omega)

theorem ReadServed.resp (h : ReadServed q rs obss) : (rdTr q rs).rresp ≠ 0b11#2 := by
  have hlt : q.len.toNat < rs.length := by
    rw [h.beats]
    exact Nat.lt_succ_self _
  have hobs : q.len.toNat < obss.length := by
    rw [h.transfers]
    exact Nat.lt_succ_self _
  have hlast : rs.getLast? = some rs[q.len.toNat] := by
    rw [List.getLast?_eq_getElem?, h.beats, Nat.add_sub_cancel, List.getElem?_eq_getElem hlt]
  rw [rdTr, hlast]
  show rs[q.len.toNat].rresp ≠ _
  rw [(h.returns _ _ _ (List.getElem?_eq_getElem hlt) (List.getElem?_eq_getElem hobs)).2]
  split <;> decide

/-- A supported read, after its transfers: it counts the beats that do not return the stored word. -/
theorem ReadServed.call_eq (h : ReadServed q rs obss) (hc : c.Contract) (hq : q.Supported)
    (hslaves : ∀ obs ∈ obss, obs.pslverr = false → obs.prdata = held c m obs) :
    call c (waiting m q.port false obss) (.axiRd (rdTr q rs)) = (quiet m).count (staleBeats c m q rs) := by
  have hill : arIllegal c (rdTr q rs) = false := by
    rw [arIllegal_rdTr hc, decide_eq_true hq]
    rfl
  have hlen : (rdPredicted c m q rs).length = obss.length := by
    rw [rdPredicted, List.length_map, List.length_range, h.transfers]
  have hdata : (rdTr q rs).rdata.length = (rdTr q rs).arlen.toNat + 1 := by
    rw [show (rdTr q rs).rdata = rs.map (·.rdata) from rfl, List.length_map, h.beats]
    rfl
  have hpreds : (List.range (q.len.toNat + 1)).map (predictRd c m (rdTr q rs)) =
      (rdPredicted c m q rs).map (q.port, ·) := by
    rw [rdPredicted, List.map_map]
    refine List.map_congr_left fun n hn => ?_
    rw [Function.comp_apply, predictRd_contract hc hq (Nat.lt_succ_iff.1 (List.mem_range.1 hn))]
  have hbeats : (List.range ((rdTr q rs).arlen.toNat + 1)).foldl (readBeat c (rdTr q rs))
      (waiting m q.port false obss) =
      { (waiting m q.port false obss).count (staleBeats c m q rs) with
        predRd := only q.port (rdPredicted c m q rs) } := by
    rw [foldl_readBeat, ← lane_only, ← hpreds]
    rfl
  have hresp : (waiting m q.port false obss).checkResp false (rdTr q rs).rresp = waiting m q.port false obss := by
    rw [State.checkResp_eq, decide_eq_false h.resp, if_pos rfl, State.count_zero]
  rw [call, writeAxiRd, hc.hasScoreboard, if_neg (by decide)]
  simp only [hill, hresp]
  rw [if_neg Bool.false_ne_true, if_neg (by simp [hdata]), hbeats, reconcileRdPorts_waiting hlen]
  exact h.no_diffs hc hq hslaves

/-- A rejected read. -/
theorem call_rejected_read (hc : c.Contract) (hq : ¬ q.Supported) (hlen : rs.length = q.len.toNat + 1)
    (hrs : ∀ r ∈ rs, r.rdata = 0 ∧ r.rresp = respDecerr) : call c (quiet m) (.axiRd (rdTr q rs)) = quiet m := by
  have hill : arIllegal c (rdTr q rs) = true := by
    rw [arIllegal_rdTr hc, decide_eq_false hq]
    rfl
  have hne : rs ≠ [] := List.ne_nil_of_length_eq_add_one hlen
  have hlast : (rdTr q rs).rresp = 0b11#2 := by
    rw [rdTr, List.getLast?_eq_some_getLast hne]
    exact (hrs _ (List.getLast_mem hne)).2
  have hresp : (quiet m).checkResp true (rdTr q rs).rresp = quiet m := by
    rw [State.checkResp_eq, hlast, decide_eq_true rfl, if_pos rfl, State.count_zero]
  have hbeat : ∀ (s : State), ∀ n ∈ List.range ((rdTr q rs).arlen.toNat + 1), decerrBeat (rdTr q rs) s n = s := by
    intro s n hn
    have hlt : n < rs.length := hlen ▸ List.mem_range.1 hn
    have hget : (rdTr q rs).rdata.getD n 0 = rs[n].rdata := by
      simp [rdTr, hlt]
    have hlt' : (rdTr q rs).rdata.length > n := by simpa [rdTr] using hlt
    rw [decerrBeat, if_pos hlt', trunc64, hget, (hrs _ (List.getElem_mem hlt)).1]
    rfl
  rw [call, writeAxiRd, hc.hasScoreboard, if_neg (by decide)]
  simp only [hill, hresp]
  rw [if_pos trivial, List.foldl_ext _ (fun s _ => s) _ hbeat]
  exact List.foldl_fixed _

/-! ### Transactions -/

private theorem count_eq_zero_iff {n : Nat} (hn : n ≤ 256) : ((quiet m).count n).mismatch = 0 ↔ n = 0 := by
  show 0#32 + BitVec.ofNat 32 n = 0#32 ↔ _
  rw [BitVec.zero_add, ← BitVec.toNat_inj, BitVec.toNat_ofNat, Nat.mod_eq_of_lt (by omega)]
  rfl

/-- Transfers that wait, and the transaction, after which `n` mismatches are counted. -/
private theorem silent_calls {p w : Bool} {k : Call} {m' : Shadow} {n : Nat} (hc : c.Contract)
    (h : ∀ obs ∈ obss, obs.pwrite = w) (hk : call c (waiting m p w obss) k = (quiet m').count n) (hn : n ≤ 256) :
    (Silent c (quiet m) (obss.map (Call.apb p) ++ [k]) ↔ n = 0) ∧
      (obss.map (Call.apb p) ++ [k]).foldl (call c) (quiet m) = (quiet m').count n := by
  obtain ⟨hrun, hsil⟩ := observe (c := c) (m := m) (p := p) hc.hasScoreboard h
  rw [silent_append, List.foldl_append, hrun, silent_singleton, List.foldl_cons, List.foldl_nil, hk,
    count_eq_zero_iff hn]
  exact ⟨⟨fun h => h.2.1, fun h => ⟨hsil, h, fun _ => quiet_idle _ _⟩⟩, rfl⟩

private theorem silent_write (hc : c.Contract) (hw : ∀ obs ∈ obss, obs.pwrite = true)
    (hk : call c (waiting m q.port true obss) (.axiWr (wrTr q ws b)) = quiet (obss.foldl (latch c) m)) :
    (Silent c (quiet m) (Txn.write q ws b obss).calls ↔ Answers c true m obss) ∧
      (Txn.write q ws b obss).calls.foldl (call c) (quiet m) = quiet (obss.foldl (latch c) m) := by
  obtain ⟨hiff, hrun⟩ := silent_calls hc hw (hk.trans State.count_zero.symm) (Nat.zero_le _)
  exact ⟨hiff.trans (iff_of_true rfl (answers_writes hw)), hrun.trans State.count_zero⟩

/-- A read of a bridge that follows the contract. -/
private theorem silent_read {n : Nat} (hc : c.Contract) (hr : ∀ obs ∈ obss, obs.pwrite = false) (hn : n ≤ 256)
    (hk : call c (waiting m q.port false obss) (.axiRd (rdTr q rs)) = (quiet m).count n)
    (hiff : n = 0 ↔ Answers c true m obss) :
    (Silent c (quiet m) (Txn.read q rs obss).calls ↔ Answers c true m obss) ∧
      (Silent c (quiet m) (Txn.read q rs obss).calls →
        (Txn.read q rs obss).calls.foldl (call c) (quiet m) = quiet (obss.foldl (latch c) m)) := by
  obtain ⟨hsil, hrun⟩ := silent_calls hc hr hk hn
  refine ⟨hsil.trans hiff, fun h => ?_⟩
  rw [foldl_latch_reads hr, Txn.calls]
  refine hrun.trans ?_
  rw [hsil.1 h, State.count_zero]

/-- One transaction of a bridge that follows the contract. -/
theorem Txn.Follows.silent_iff {t : Txn idWidth} (ht : t.Follows) (hc : c.Contract)
    (hslaves : Answers c false m t.transfers) :
    (Silent c (quiet m) t.calls ↔ Answers c true m t.transfers) ∧
      (Silent c (quiet m) t.calls →
        t.calls.foldl (call c) (quiet m) = quiet (t.transfers.foldl (latch c) m)) := by
  cases t with
  | write q ws b obss =>
    by_cases hq : q.Supported
    · have h := ht.1 hq
      exact (silent_write hc h.pwrite (h.call_eq hc hq)).imp_right fun hrun _ => hrun
    · obtain ⟨rfl, hb⟩ := ht.2 hq
      have hk : call c (waiting m q.port true []) (.axiWr (wrTr q ws b)) = quiet m := by
        rw [waiting_nil]
        exact call_rejected_write hc hq hb
      exact (silent_write hc (by simp) hk).imp_right fun hrun _ => hrun
  | read q rs obss =>
    by_cases hq : q.Supported
    · have h := ht.1 hq
      have hfalse := (answers_reads h.pwrite).1 hslaves
      refine silent_read hc h.pwrite (staleBeats_le c m q rs) (h.call_eq hc hq hfalse) ?_
      rw [h.staleBeats_eq_zero hc hq, answers_reads h.pwrite]
      refine forall₂_congr fun obs hobs => ⟨fun hd _ => hd, fun hd => ?_⟩
      cases hs : obs.pslverr with
      | true => exact hd hs
      | false => exact hfalse obs hobs hs
    · obtain ⟨rfl, hlen, hrs⟩ := ht.2 hq
      refine silent_read hc (by simp) (Nat.zero_le _) ?_ (iff_of_true rfl trivial)
      rw [waiting_nil, State.count_zero]
      exact call_rejected_read hc hq hlen hrs

/-- The scoreboard raises no alarm just if every read that ends with an error has returned the stored word as well. -/
theorem no_alarm_iff (hc : c.Contract) {ts : List (Txn idWidth)} (hts : ∀ t ∈ ts, t.Follows)
    (hslaves : Answers c false (fun _ => none) (ts.flatMap Txn.transfers)) :
    Silent c .new (ts.flatMap Txn.calls) ↔ Answers c true (fun _ => none) (ts.flatMap Txn.transfers) := by
  show Silent c (quiet fun _ => none) _ ↔ _
  generalize (fun _ => none : Shadow) = m at hslaves ⊢
  induction ts generalizing m with
  | nil => exact Iff.rfl
  | cons t ts ih =>
    rw [List.flatMap_cons, answers_append] at hslaves
    obtain ⟨hiff, hrun⟩ := (hts t (List.mem_cons_self ..)).silent_iff hc hslaves.1
    rw [List.flatMap_cons, List.flatMap_cons, silent_append, answers_append, ← hiff]
    refine and_congr_right fun hsil => ?_
    rw [hrun hsil]
    exact ih (fun t' ht' => hts t' (List.mem_cons_of_mem _ ht')) _ hslaves.2

end

/-- A write whose second beat ends with an error, a read whose first beat does so but returns the stored word, and a
write of 4 bytes, which is rejected. -/
theorem no_alarm_iff_errors :
    let q : Req (contract 4) := ⟨5, 0x1000, 1, 0b011, 0b01, 0⟩
    let w := Txn.write q [⟨0x11, 0xff, false⟩, ⟨0x22, 0xff, true⟩] ⟨5, respSlverr⟩
      [⟨0, 0x1000, true, 0x11, 0xff, 0, false⟩, ⟨0, 0x1008, true, 0x22, 0xff, 0, true⟩]
    let r := Txn.read q [⟨5, 0x11, respSlverr, false⟩, ⟨5, 0, respOkay, true⟩]
      [⟨0, 0x1000, false, 0, 0xff, 0x11, true⟩, ⟨0, 0x1008, false, 0, 0xff, 0, false⟩]
    let d := Txn.write { q with size := 0b010 } [⟨0x33, 0x0f, true⟩] ⟨5, respDecerr⟩ []
    Silent {} .new ([w, r, d].flatMap Txn.calls) := by
  intro q w r d
  have hw : w.Follows := by
    refine ⟨fun _ => ⟨by decide, rfl, fun n v obs hv ho => ?_, fun _ => rfl, fun h => ?_⟩, fun h => absurd ?_ h⟩
    · match n with
      | 0 => cases hv; cases ho; exact ⟨⟨by decide, by decide⟩, rfl, rfl, rfl⟩
      | 1 => cases hv; cases ho; exact ⟨⟨by decide, by decide⟩, rfl, rfl, rfl⟩
      | n + 2 => cases hv
    · exact absurd (Or.inl ⟨_, List.mem_cons_of_mem _ (List.mem_cons_self ..), rfl⟩) h
    · decide
  have hr : r.Follows := by
    refine ⟨fun _ => ⟨rfl, rfl, fun n obs ho => ?_, fun n v obs hv ho => ?_⟩, fun h => absurd ?_ h⟩
    · match n with
      | 0 => cases ho; exact ⟨⟨by decide, by decide⟩, rfl⟩
      | 1 => cases ho; exact ⟨⟨by decide, by decide⟩, rfl⟩
      | n + 2 => cases ho
    · match n with
      | 0 => cases hv; cases ho; exact ⟨rfl, rfl⟩
      | 1 => cases hv; cases ho; exact ⟨rfl, rfl⟩
      | n + 2 => cases hv
    · decide
  have hd : d.Follows := ⟨fun h => absurd h (by decide), fun _ => ⟨rfl, rfl⟩⟩
  have hts : ∀ t ∈ [w, r, d], t.Follows := by
    simp [hw, hr, hd]
  exact (no_alarm_iff ⟨rfl, rfl, rfl, rfl⟩ hts (by decide)).2 (by decide)

/-- A read that ends with an error and returns other data: the bridge does what it should, and there is an alarm. -/
theorem alarm_without_cause : ¬ ∀ (idWidth : Nat) (c : Cfg) (ts : List (Txn idWidth)), c.Contract →
    (∀ t ∈ ts, t.Follows) → Answers c false (fun _ => none) (ts.flatMap Txn.transfers) →
    Silent c .new (ts.flatMap Txn.calls) := by
  intro h
  let r : Txn 4 := .read ⟨5, 0x1000, 0, 0b011, 0b01, 0⟩ [⟨5, 0xbad, respSlverr, true⟩]
    [⟨0, 0x1000, false, 0, 0xff, 0xbad, true⟩]
  have hr : r.Follows := by
    refine ⟨fun _ => ⟨rfl, rfl, fun n obs ho => ?_, fun n v obs hv ho => ?_⟩, fun h => absurd ?_ h⟩
    · match n with
      | 0 => cases ho; exact ⟨⟨by decide, by decide⟩, rfl⟩
      | n + 1 => cases ho
    · match n with
      | 0 => cases hv; cases ho; exact ⟨rfl, rfl⟩
      | n + 1 => cases hv
    · decide
  have hsilent := h 4 {} [r] ⟨rfl, rfl, rfl, rfl⟩ (by simp [hr]) (by decide)
  exact absurd hsilent.2.2.1 (by decide)

end Scoreboard

end AxiApb
