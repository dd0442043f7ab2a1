import AxiApb.Scoreboard

/-!
# The order of arrival at the scoreboard

The write queues of the scoreboard pair off predictions and observations (`reconcileWrPorts_eq`), so that the `k`-th
beat that is predicted for a port is compared with the `k`-th write that is observed there (`Tracks`), in whatever
order the monitors report.  The keys of the two memories differ in bit 20, so that the shadow does not depend on the
order of the ports either (`writes_pair_off`).
-/

namespace AxiApb

namespace Scoreboard

open Pairing

variable {c : Cfg} {s : State} {p : Bool}

/-! ### Counting mismatches -/

/-- `n` more mismatches. -/
def State.count (s : State) (n : Nat) : State := { s with mismatch := s.mismatch + BitVec.ofNat 32 n }

theorem State.count_zero : s.count 0 = s := by
  rw [count, show BitVec.ofNat 32 0 = 0#32 from rfl, BitVec.add_zero]

theorem State.count_count (m n : Nat) : (s.count m).count n = s.count (m + n) := by
  rw [count, count, count, BitVec.ofNat_add, BitVec.add_assoc]

theorem State.check_eq (ok : Bool) : s.check ok = s.count (if ok then 0 else 1) := by
  cases ok with
  | true => exact count_zero.symm
  | false => rfl

/-- The mismatches of a pair of a prediction and an observation. -/
def wrDiffs (c : Cfg) (p : Bool) (x : ApbTr × ApbTr) : Nat :=
  (if x.1.port = x.2.port ∧ x.1.port = portIx p ∧ x.2.pwrite = true then 0 else 1) +
    (if x.1.paddr.setWidth 32 = x.2.paddr.setWidth 32 then 0 else 1) +
    (if byteMatch x.1.pwdata x.1.pstrb x.2.pwdata x.2.pstrb c.dataWidth = true then 0 else 1)

def rdDiffs (c : Cfg) (p : Bool) (x : ApbTr × ApbTr) : Nat :=
  (if x.1.port = x.2.port ∧ x.1.port = portIx p ∧ x.2.pwrite = false then 0 else 1) +
    (if x.1.paddr.setWidth 32 = x.2.paddr.setWidth 32 then 0 else 1) +
    (if x.2.pslverr = true ∨ truncDw c x.1.prdata = truncDw c x.2.prdata then 0 else 1)

/-- A completed write in the shadow. -/
def commit (c : Cfg) (g : Shadow) (obs : ApbTr) : Shadow :=
  if obs.pslverr then g
  else Function.update g (ramKeyOf c obs.port (obs.paddr.setWidth 32)) (some (truncDw c obs.pwdata))

theorem oneWrHit_eq {pred obs : ApbTr} {preds obss : List ApbTr} (hp : s.predWr p = pred :: preds)
    (ho : s.bufWrObs p = obs :: obss) :
    oneWrHit c p s = { s.count (wrDiffs c p (pred, obs)) with
      predWr := Function.update s.predWr p preds
      bufWrObs := Function.update s.bufWrObs p obss
      slvShadow := commit c s.slvShadow obs } := by
  have hmeta : (if (!(pred.port != obs.port || pred.port != portIx p || !obs.pwrite)) = true then 0 else 1) =
      if pred.port = obs.port ∧ pred.port = portIx p ∧ obs.pwrite = true then 0 else 1 := by
    simp [and_assoc]
  rw [oneWrHit, hp, ho]
  simp only [State.check_eq, State.count_count, hmeta, beq_iff_eq, wrDiffs]
  cases hs : obs.pslverr <;> simp [commit, hs, shadowCommitWr, State.count]

theorem oneRdHit_eq {pred obs : ApbTr} {preds obss : List ApbTr} (hp : s.predRd p = pred :: preds)
    (ho : s.bufRdObs p = obs :: obss) :
    oneRdHit c p s = { s.count (rdDiffs c p (pred, obs)) with
      predRd := Function.update s.predRd p preds
      bufRdObs := Function.update s.bufRdObs p obss } := by
  have hmeta : (if (!(pred.port != obs.port || pred.port != portIx p || obs.pwrite)) = true then 0 else 1) =
      if pred.port = obs.port ∧ pred.port = portIx p ∧ obs.pwrite = false then 0 else 1 := by
    simp [and_assoc]
  have hdata : (if (!(!obs.pslverr && truncDw c pred.prdata != truncDw c obs.prdata)) = true then 0 else 1) =
      if obs.pslverr = true ∨ truncDw c pred.prdata = truncDw c obs.prdata then 0 else 1 := by
    simp
  rw [oneRdHit, hp, ho]
  simp only [State.check_eq, State.count_count, hmeta, hdata, beq_iff_eq, rdDiffs]
  rfl

/-! ### The loops -/

theorem reconcile_of_empty {pred buf : State → List ApbTr} {hit : State → State} (h : pred s = [] ∨ buf s = [])
    (n : Nat) : reconcile pred buf hit n s = s := by
  cases n with
  | zero => rfl
  | succ n =>
    rw [reconcile, if_neg]
    rcases h with h | h <;> simp [h]

theorem reconcileWrPort_of_empty (h : s.predWr p = [] ∨ s.bufWrObs p = []) : reconcileWrPort c p s = s :=
  reconcile_of_empty h _

/-- The rule for the loops: `res` is the outcome if it is that of a loop that has nothing to do, and if a turn does not
change it. -/
theorem reconcile_eq {pred buf : State → List ApbTr} {hit : State → State}
    (res : List ApbTr → List ApbTr → State → State)
    (hdone : ∀ s, pred s = [] ∨ buf s = [] → res (pred s) (buf s) s = s)
    (hhit : ∀ s a as b bs, pred s = a :: as → buf s = b :: bs →
      pred (hit s) = as ∧ buf (hit s) = bs ∧ res as bs (hit s) = res (a :: as) (b :: bs) s) :
    reconcile pred buf hit (pred s).length s = res (pred s) (buf s) s := by
  generalize hl : pred s = l
  induction l generalizing s with
  | nil => rw [reconcile_of_empty (Or.inl hl), ← hl, hdone s (Or.inl hl)]
  | cons a as ih =>
    cases hb : buf s with
    | nil => rw [reconcile_of_empty (Or.inr hb), ← hl, ← hb, hdone s (Or.inr hb)]
    | cons b bs =>
      obtain ⟨has, hbs, hres⟩ := hhit s a as b bs hl hb
      rw [List.length_cons, reconcile, if_pos (by simp [hl, hb]), ih has, hbs, hres]

theorem reconcileWrPort_eq : reconcileWrPort c p s =
    { s.count (((s.predWr p).zip (s.bufWrObs p)).map (wrDiffs c p)).sum with
      predWr := Function.update s.predWr p ((s.predWr p).drop (s.bufWrObs p).length)
      bufWrObs := Function.update s.bufWrObs p ((s.bufWrObs p).drop (s.predWr p).length)
      slvShadow := ((s.predWr p).zip (s.bufWrObs p)).foldl (fun g x => commit c g x.2) s.slvShadow } := by
  refine reconcile_eq (fun l r s =>
    { s.count ((l.zip r).map (wrDiffs c p)).sum with
      predWr := Function.update s.predWr p (l.drop r.length)
      bufWrObs := Function.update s.bufWrObs p (r.drop l.length)
      slvShadow := (l.zip r).foldl (fun g x => commit c g x.2) s.slvShadow }) ?_ ?_
  · intro s h
    obtain ⟨hzip, hleft, hright⟩ := of_one_empty h
    rw [hzip, hleft, hright, Function.update_eq_self, Function.update_eq_self]
    exact State.ext rfl rfl rfl rfl rfl (BitVec.add_zero _)
  · intro s pred preds obs obss hp ho
    rw [oneWrHit_eq hp ho]
    simp [State.count, BitVec.add_assoc, BitVec.ofNat_add]

/-- The read queues are compared in the same way; the shadow stays. -/
theorem reconcileRdPort_eq : reconcileRdPort c p s =
    { s.count (((s.predRd p).zip (s.bufRdObs p)).map (rdDiffs c p)).sum with
      predRd := Function.update s.predRd p ((s.predRd p).drop (s.bufRdObs p).length)
      bufRdObs := Function.update s.bufRdObs p ((s.bufRdObs p).drop (s.predRd p).length) } := by
  refine reconcile_eq (fun l r s =>
    { s.count ((l.zip r).map (rdDiffs c p)).sum with
      predRd := Function.update s.predRd p (l.drop r.length)
      bufRdObs := Function.update s.bufRdObs p (r.drop l.length) }) ?_ ?_
  · intro s h
    obtain ⟨hzip, hleft, hright⟩ := of_one_empty h
    rw [hzip, hleft, hright, Function.update_eq_self, Function.update_eq_self]
    exact State.ext rfl rfl rfl rfl rfl (BitVec.add_zero _)
  · intro s pred preds obs obss hp ho
    rw [oneRdHit_eq hp ho]
    simp [State.count, BitVec.add_assoc, BitVec.ofNat_add]

/-- The loop has stopped because a queue is empty, not because of the number of turns. -/
theorem reconcileWrPort_done : (reconcileWrPort c p s).predWr p = [] ∨ (reconcileWrPort c p s).bufWrObs p = [] := by
  rw [reconcileWrPort_eq]
  simpa using drop_eq_nil_or (s.predWr p) (s.bufWrObs p)

theorem reconcileRdPort_done : (reconcileRdPort c p s).predRd p = [] ∨ (reconcileRdPort c p s).bufRdObs p = [] := by
  rw [reconcileRdPort_eq]
  simpa using drop_eq_nil_or (s.predRd p) (s.bufRdObs p)

/-- The pairs of both ports, in the order in which `reconcile_wr_ports` takes them off. -/
def wrPairs (s : State) : List (Bool × ApbTr × ApbTr) :=
  inOrder [false, true] fun p => (s.predWr p).zip (s.bufWrObs p)

def rdPairs (s : State) : List (Bool × ApbTr × ApbTr) :=
  inOrder [false, true] fun p => (s.predRd p).zip (s.bufRdObs p)

theorem lane_bools {δ : Type*} (zs : Bool → List δ) : lane p (inOrder [false, true] zs) = zs p := by
  rw [lane_inOrder (by decide), if_pos (by cases p <;> simp)]

theorem reconcileWrPorts_eq : reconcileWrPorts c s =
    { s.count ((wrPairs s).map fun x => wrDiffs c x.1 x.2).sum with
      predWr := fun p => (s.predWr p).drop (s.bufWrObs p).length
      bufWrObs := fun p => (s.bufWrObs p).drop (s.predWr p).length
      slvShadow := (wrPairs s).foldl (fun g x => commit c g x.2.2) s.slvShadow } := by
  rw [reconcileWrPorts, reconcileWrPort_eq, reconcileWrPort_eq]
  simp only [wrPairs, inOrder, State.count, State.mk.injEq]
  refine ⟨funext fun p => by cases p <;> simp, trivial, funext fun p => by cases p <;> simp, trivial, ?_, ?_⟩
  · simp [List.foldl_map]
  · simp [BitVec.ofNat_add, BitVec.add_assoc, Function.comp_def]

theorem reconcileRdPorts_eq : reconcileRdPorts c s =
    { s.count ((rdPairs s).map fun x => rdDiffs c x.1 x.2).sum with
      predRd := fun p => (s.predRd p).drop (s.bufRdObs p).length
      bufRdObs := fun p => (s.bufRdObs p).drop (s.predRd p).length } := by
  rw [reconcileRdPorts, reconcileRdPort_eq, reconcileRdPort_eq]
  simp only [rdPairs, inOrder, State.count, State.mk.injEq]
  refine ⟨trivial, funext fun p => by cases p <;> simp, trivial, funext fun p => by cases p <;> simp, trivial, ?_⟩
  simp [BitVec.ofNat_add, BitVec.add_assoc, Function.comp_def]

/-- Nothing is left to compare. -/
def State.WrSettled (s : State) : Prop := ∀ p, s.predWr p = [] ∨ s.bufWrObs p = []

theorem reconcileWrPorts_of_settled (h : s.WrSettled) : reconcileWrPorts c s = s := by
  rw [reconcileWrPorts, reconcileWrPort_of_empty (h false), reconcileWrPort_of_empty (h true)]

/-! ### What a call adds -/

/-- The predictions of a write, each with its port. -/
def predictions (c : Cfg) (t : AxiWrTr) (n : Nat) : List (Bool × ApbTr) := (List.range n).map (predictWr c t)

/-- The predictions that `write_axi_wr` makes. -/
def wrPreds (c : Cfg) (t : AxiWrTr) : List (Bool × ApbTr) :=
  if awIllegal c t then []
  else if t.bresp = 0b10#2 then predictions c t t.wdata.length
  else if t.awlen.toNat + 1 = t.wdata.length ∧ t.wdata.length = t.wstrb.length then
    predictions c t (t.awlen.toNat + 1)
  else []

/-- The mismatches that `write_axi_wr` counts by itself: in the response and in the number of beats. -/
def wrErrors (c : Cfg) (t : AxiWrTr) : Nat :=
  if awIllegal c t then (if t.bresp = 0b11#2 then 0 else 1)
  else if t.bresp = 0b10#2 then 0
  else
    (if t.bresp = 0b11#2 then 1 else 0) +
      if t.awlen.toNat + 1 = t.wdata.length ∧ t.wdata.length = t.wstrb.length then 0 else 1

theorem State.checkResp_eq (illegal : Bool) (resp : BitVec 2) :
    s.checkResp illegal resp = s.count (if illegal = decide (resp = 0b11#2) then 0 else 1) := by
  rw [State.checkResp]
  cases illegal <;> cases hr : decide (resp = 0b11#2) <;> simp_all [State.error, State.count]

private theorem foldl_pushPredWr (l : List (Bool × ApbTr)) :
    l.foldl State.pushPredWr s = { s with predWr := fun p => s.predWr p ++ lane p l } := by
  induction l generalizing s with
  | nil => simp
  | cons x l ih =>
    rw [List.foldl_cons, ih, State.pushPredWr, update_push]
    refine State.ext (funext fun p => ?_) rfl rfl rfl rfl rfl
    exact (List.append_assoc ..).trans (congrArg (s.predWr p ++ ·) (lane_append p [x] l).symm)

/-- More mismatches, predictions and observed writes. -/
def State.arrive (s : State) (n : Nat) (preds obss : List (Bool × ApbTr)) : State :=
  { s.count n with
    predWr := fun p => s.predWr p ++ lane p preds
    bufWrObs := fun p => s.bufWrObs p ++ lane p obss }

theorem State.arrive_nil (n : Nat) : s.arrive n [] [] = s.count n := by
  simp [arrive, count]

theorem writeAxiWr_eq (hc : c.hasScoreboard = true) (hs : s.WrSettled) (t : AxiWrTr) :
    writeAxiWr c t s = reconcileWrPorts c (s.arrive (wrErrors c t) (wrPreds c t) []) := by
  have hcount : ∀ n, reconcileWrPorts c (s.arrive n [] []) = s.count n := fun n => by
    rw [State.arrive_nil]
    exact reconcileWrPorts_of_settled hs
  have hpush : ∀ m n, (List.range n).foldl (fun s b => s.pushPredWr (predictWr c t b)) (s.count m) =
      s.arrive m (predictions c t n) [] := fun m n => by
    rw [State.arrive, predictions]
    simp only [lane_nil, List.append_nil]
    rw [← List.foldl_map, foldl_pushPredWr]
    rfl
  rw [writeAxiWr, wrErrors, wrPreds, hc, if_neg (by decide)]
  simp only [State.checkResp_eq, hpush]
  cases hill : awIllegal c t with
  | true =>
    rw [if_pos rfl, if_pos rfl, if_pos rfl, hcount]
    by_cases h3 : t.bresp = 0b11#2 <;> simp [h3]
  | false =>
    rw [if_neg Bool.false_ne_true, if_neg Bool.false_ne_true, if_neg Bool.false_ne_true]
    by_cases h2 : t.bresp = 0b10#2
    · rw [if_pos (beq_iff_eq.2 h2), if_pos h2, if_pos h2, h2]
      rfl
    · have hresp : (if false = decide (t.bresp = 0b11#2) then 0 else 1) = if t.bresp = 0b11#2 then 1 else 0 := by
        by_cases h3 : t.bresp = 0b11#2 <;> simp [h3]
      rw [if_neg (mt beq_iff_eq.1 h2), if_neg h2, if_neg h2, hresp]
      by_cases hlen : t.awlen.toNat + 1 = t.wdata.length ∧ t.wdata.length = t.wstrb.length
      · rw [if_pos hlen, if_pos hlen, if_neg (by simp [hlen])]
        rfl
      · rw [if_neg hlen, if_neg hlen, if_pos (by simpa [imp_iff_not_or] using hlen), hcount, ← State.count_count]
        rfl

/-- A write that is observed. -/
theorem ingestApb_write (hc : c.hasScoreboard = true) (hs : s.WrSettled) {obs : ApbTr} (hw : obs.pwrite = true) :
    ingestApb c p obs s = reconcileWrPorts c (s.arrive 0 [] [(p, obs)]) := by
  have hbuf : ({ s with bufWrObs := Function.update s.bufWrObs p (s.bufWrObs p ++ [obs]) } : State) =
      s.arrive 0 [] [(p, obs)] := by
    rw [State.arrive, State.count_zero, update_push]
    simp only [lane_nil, List.append_nil]
  rw [ingestApb, hc, if_neg (by decide), if_pos hw, hbuf, reconcileWrPorts]
  -- the other port has nothing to compare
  cases p with
  | false =>
    refine (reconcileWrPort_of_empty ?_).symm
    rw [reconcileWrPort_eq]
    simpa [State.arrive, lane_cons_ne] using hs true
  | true =>
    rw [reconcileWrPort_of_empty (p := false) (by simpa [State.arrive, lane_cons_ne] using hs false)]

/-- A read that is observed while no read is predicted. -/
theorem ingestApb_read (hc : c.hasScoreboard = true) (hs : s.predRd p = []) {obs : ApbTr} (hw : obs.pwrite = false) :
    ingestApb c p obs s = { s with bufRdObs := fun q => s.bufRdObs q ++ lane q [(p, obs)] } := by
  rw [ingestApb, hc, if_neg (by decide), hw, if_neg Bool.false_ne_true, update_push]
  exact reconcile_of_empty (Or.inl hs) _

namespace Call

variable (c)

def preds : Call → List (Bool × ApbTr)
  | .axiWr t => wrPreds c t
  | .axiRd _ | .apb .. => []

def errors : Call → Nat
  | .axiWr t => wrErrors c t
  | .axiRd _ | .apb .. => 0

/-- The observed transfer, if it is a write, and if it is a read. -/
def writes : Call → List (Bool × ApbTr)
  | .apb p obs => if obs.pwrite then [(p, obs)] else []
  | .axiWr _ | .axiRd _ => []

def reads : Call → List (Bool × ApbTr)
  | .apb p obs => if obs.pwrite then [] else [(p, obs)]
  | .axiWr _ | .axiRd _ => []

def isAxiRd : Call → Bool
  | .axiRd _ => true
  | .axiWr _ | .apb .. => false

end Call

theorem call_ingest (obs : ApbTr) : call c s (.apb p obs) = ingestApb c p obs s := by
  cases p <;> rfl

/-- Every call but that of an AXI read. -/
theorem call_eq (hc : c.hasScoreboard = true) (hs : s.WrSettled) (hr : s.predRd = fun _ => []) {k : Call}
    (hk : k.isAxiRd = false) : call c s k =
      { reconcileWrPorts c (s.arrive (k.errors c) (k.preds c) k.writes) with
        bufRdObs := fun p => s.bufRdObs p ++ lane p k.reads } := by
  have hnone : reconcileWrPorts c (s.arrive 0 [] []) = s := by
    rw [State.arrive_nil, State.count_zero, reconcileWrPorts_of_settled hs]
  have hkeep : ∀ x : State, reconcileWrPorts c x =
      { reconcileWrPorts c x with bufRdObs := fun p => x.bufRdObs p ++ lane p [] } := fun x => by
    simp only [lane_nil, List.append_nil]
    rw [reconcileWrPorts_eq]
    rfl
  cases k with
  | axiRd t => cases hk
  | axiWr t =>
    rw [call, writeAxiWr_eq hc hs]
    exact hkeep _
  | apb p obs =>
    rw [call_ingest]
    cases hw : obs.pwrite with
    | true =>
      have hwrites : Call.writes (.apb p obs) = [(p, obs)] := if_pos hw
      have hreads : Call.reads (.apb p obs) = [] := if_pos hw
      rw [ingestApb_write hc hs hw, hwrites, hreads]
      exact hkeep _
    | false =>
      rw [ingestApb_read hc (congrFun hr p) hw]
      simp [Call.reads, Call.errors, Call.preds, Call.writes, hw, hnone]

/-! ### Runs -/

/-- The beats that are predicted for a port. -/
def predicted (c : Cfg) (cs : List Call) (p : Bool) : List ApbTr := lane p (cs.flatMap (Call.preds c))

/-- The writes that are observed at a port. -/
def observed (cs : List Call) (p : Bool) : List ApbTr := lane p (cs.flatMap Call.writes)

def observedReads (cs : List Call) (p : Bool) : List ApbTr := lane p (cs.flatMap Call.reads)

/-- What `write_axi_wr` counts by itself. -/
def axiErrors (c : Cfg) (cs : List Call) : Nat := (cs.map (Call.errors c)).sum

/-- After the calls `cs`, none of them an AXI read, the pairs `hs` have been compared. -/
structure Tracks (c : Cfg) (cs : List Call) (hs : List (Bool × ApbTr × ApbTr)) (s : State) : Prop where
  paired : Paired (predicted c cs) (observed cs) hs s.predWr s.bufWrObs
  mismatch : s.mismatch = BitVec.ofNat 32 (axiErrors c cs + (hs.map fun x => wrDiffs c x.1 x.2).sum)
  shadow : s.slvShadow = hs.foldl (fun g x => commit c g x.2.2) fun _ => none
  predRd : s.predRd = fun _ => []
  bufRd : s.bufRdObs = observedReads cs

theorem tracks_new (c : Cfg) : Tracks c [] [] .new := ⟨Paired.nil, rfl, rfl, rfl, rfl⟩

theorem Tracks.step (hc : c.hasScoreboard = true) {cs : List Call} {hs : List (Bool × ApbTr × ApbTr)}
    (h : Tracks c cs hs s) {k : Call} (hk : k.isAxiRd = false) :
    ∃ new, Tracks c (cs ++ [k]) (hs ++ new) (call c s k) := by
  refine ⟨wrPairs (s.arrive (k.errors c) (k.preds c) k.writes), ?_⟩
  rw [call_eq hc h.paired.one_empty h.predRd hk, reconcileWrPorts_eq]
  constructor
  · have hp : predicted c (cs ++ [k]) = fun p => predicted c cs p ++ lane p (k.preds c) := by
      funext p
      simp [predicted]
    have ho : observed (cs ++ [k]) = fun p => observed cs p ++ lane p k.writes := by
      funext p
      simp [observed]
    rw [hp, ho]
    exact h.paired.arrive fun p => lane_bools _
  · simp [State.arrive, State.count, h.mismatch, axiErrors, ← BitVec.ofNat_add]
    congr 1
    omega
  · simp [State.arrive, State.count, h.shadow]
  · exact h.predRd
  · funext p
    simp [h.bufRd, observedReads]

theorem tracks_after (hc : c.hasScoreboard = true) {cs : List Call} (hcs : ∀ k ∈ cs, k.isAxiRd = false) :
    ∃ hs, Tracks c cs hs (after c cs) := by
  induction cs using List.reverseRecOn with
  | nil => exact ⟨[], tracks_new c⟩
  | append_singleton cs k ih =>
    obtain ⟨hs, h⟩ := ih fun k' hk' => hcs k' (List.mem_append_left _ hk')
    obtain ⟨new, hnew⟩ := h.step hc (hcs k (by simp))
    refine ⟨hs ++ new, ?_⟩
    rwa [after, List.foldl_concat]

/-- A scoreboard that is switched off does nothing. -/
theorem after_off (hc : c.hasScoreboard = false) (cs : List Call) : after c cs = .new := by
  induction cs using List.reverseRecOn with
  | nil => rfl
  | append_singleton cs k ih =>
    have hoff : ∀ s, call c s k = s := by
      intro s
      cases k with
      | axiWr t => simp [call, writeAxiWr, hc]
      | axiRd t => simp [call, writeAxiRd, hc]
      | apb p obs => cases p <;> simp [call, writeApb0, writeApb1, ingestApb, hc]
    rw [after, List.foldl_concat]
    exact (hoff _).trans ih

/-- The `k`-th prediction for a port with the `k`-th write that is observed there. -/
def pairsOf (c : Cfg) (cs : List Call) (p : Bool) : List (ApbTr × ApbTr) := (predicted c cs p).zip (observed cs p)

theorem Tracks.lane_eq {cs : List Call} {hs : List (Bool × ApbTr × ApbTr)} (h : Tracks c cs hs s) (p : Bool) :
    lane p hs = lane p (inOrder [false, true] (pairsOf c cs)) := by
  rw [h.paired.taken, lane_bools]
  rfl

/-- The mismatches, port by port. -/
theorem Tracks.mismatch_eq {cs : List Call} {hs : List (Bool × ApbTr × ApbTr)} (h : Tracks c cs hs s) :
    s.mismatch = BitVec.ofNat 32 (axiErrors c cs +
      (((pairsOf c cs false).map (wrDiffs c false)).sum + ((pairsOf c cs true).map (wrDiffs c true)).sum)) := by
  rw [h.mismatch, ((perm_of_lane_eq h.lane_eq).map _).sum_eq]
  simp [inOrder, Function.comp_def]

/-! ### The keys of the shadow -/

/-- Bit 20 of a key is the port. -/
theorem ramKeyOf_port (hwidth : (c.apbMemAddrMsb - c.apbMemAddrLsb + 1#32).toNat ≤ 20) (p : Bool) (aa : BitVec 32) :
    (ramKeyOf c (portIx p) aa).getLsbD 20 = p := by
  have hmask : ((1#32 <<< (c.apbMemAddrMsb - c.apbMemAddrLsb + 1#32)) - 1#32).getLsbD 20 = false := by
    have hlow : ∀ n ≤ 20, ((1#32 <<< n) - 1#32).getLsbD 20 = false := by decide
    exact hlow _ hwidth
  have hport : (portIx p <<< 20).getLsbD 20 = p := by
    cases p <;> decide
  rw [ramKeyOf, BitVec.getLsbD_or, BitVec.getLsbD_and, hmask, Bool.and_false, Bool.or_false]
  exact hport

private theorem commit_comm (hwidth : (c.apbMemAddrMsb - c.apbMemAddrLsb + 1#32).toNat ≤ 20) {x y : ApbTr} {q : Bool}
    (hx : x.port = portIx p) (hy : y.port = portIx q) (hpq : p ≠ q) (g : Shadow) :
    commit c (commit c g x) y = commit c (commit c g y) x := by
  have hkey : ramKeyOf c (portIx p) (x.paddr.setWidth 32) ≠ ramKeyOf c (portIx q) (y.paddr.setWidth 32) := by
    intro h
    apply hpq
    rw [← ramKeyOf_port hwidth p (x.paddr.setWidth 32), h, ramKeyOf_port hwidth]
  unfold commit
  cases x.pslverr <;> cases y.pslverr <;> simp [hx, hy, Function.update_comm hkey]

/-- The calls of writes, each observation at its own port. -/
def WritesOnly (cs : List Call) : Prop :=
  ∀ k ∈ cs, match k with
    | .axiWr _ => True
    | .axiRd _ => False
    | .apb p obs => obs.port = portIx p ∧ obs.pwrite = true

theorem WritesOnly.no_read {cs : List Call} (h : WritesOnly cs) : ∀ k ∈ cs, k.isAxiRd = false := by
  intro k hk
  have := h k hk
  cases k with
  | axiWr | apb => rfl
  | axiRd => exact this.elim

theorem WritesOnly.port {cs : List Call} (h : WritesOnly cs) {obs : ApbTr} (ho : obs ∈ observed cs p) :
    obs.port = portIx p := by
  obtain ⟨k, hk, hmem⟩ := List.mem_flatMap.1 (mem_lane.1 ho)
  have hport := h k hk
  cases k with
  | axiWr | axiRd => cases hmem
  | apb q obs' =>
    rw [Call.writes, if_pos hport.2, List.mem_singleton, Prod.mk.injEq] at hmem
    rw [hmem.1, hmem.2]
    exact hport.1

theorem WritesOnly.no_reads {cs : List Call} (h : WritesOnly cs) (p : Bool) : observedReads cs p = [] := by
  have hnil : cs.flatMap Call.reads = [] := by
    rw [List.flatMap_eq_nil_iff]
    intro k hk
    have hwrite := h k hk
    cases k with
    | axiWr | axiRd => rfl
    | apb q obs => exact if_pos hwrite.2
  rw [observedReads, hnil]
  rfl

/-- The shadow, port by port. -/
theorem Tracks.shadow_eq (hwidth : (c.apbMemAddrMsb - c.apbMemAddrLsb + 1#32).toNat ≤ 20) {cs : List Call}
    (hcs : WritesOnly cs) {hs : List (Bool × ApbTr × ApbTr)} (h : Tracks c cs hs s) :
    s.slvShadow = (pairsOf c cs true).foldl (fun g x => commit c g x.2)
      ((pairsOf c cs false).foldl (fun g x => commit c g x.2) fun _ => none) := by
  have hport : ∀ x ∈ inOrder [false, true] (pairsOf c cs), x.2.2.port = portIx x.1 := by
    intro x hx
    have hmem : x.2 ∈ lane x.1 (inOrder [false, true] (pairsOf c cs)) := mem_lane.2 hx
    rw [lane_bools] at hmem
    exact hcs.port (List.of_mem_zip hmem).2
  rw [h.shadow, foldl_eq_of_lane_eq (fun x hx y hy hne g => commit_comm hwidth (hport x hx) (hport y hy) hne g)
    h.lane_eq]
  simp [inOrder, List.foldl_map]

/-- Where the streams of the ports are the same, so is everything. -/
theorem Tracks.unique (hwidth : (c.apbMemAddrMsb - c.apbMemAddrLsb + 1#32).toNat ≤ 20) {s' : State}
    {cs cs' : List Call} {hs hs' : List (Bool × ApbTr × ApbTr)} (h : Tracks c cs hs s) (h' : Tracks c cs' hs' s')
    (hcs : WritesOnly cs) (hcs' : WritesOnly cs') (hpred : predicted c cs = predicted c cs')
    (hobs : observed cs = observed cs') (herr : axiErrors c cs = axiErrors c cs') : s = s' := by
  have hpairs : pairsOf c cs = pairsOf c cs' := by
    unfold pairsOf
    rw [hpred, hobs]
  have hpaired := h.paired
  rw [hpred, hobs] at hpaired
  obtain ⟨hleft, hright, -⟩ := hpaired.unique h'.paired
  refine State.ext hleft (h.predRd.trans h'.predRd.symm) hright ?_ ?_ ?_
  · rw [h.bufRd, h'.bufRd]
    exact funext fun p => (hcs.no_reads p).trans (hcs'.no_reads p).symm
  · rw [h.shadow_eq hwidth hcs, h'.shadow_eq hwidth hcs', hpairs]
  · rw [h.mismatch_eq, h'.mismatch_eq, hpairs, herr]

/-- Predictions and observed writes are paired off port by port, the `k`-th with the `k`-th, in whatever order they
arrive. -/
theorem writes_pair_off (c : Cfg) (hwidth : (c.apbMemAddrMsb - c.apbMemAddrLsb + 1#32).toNat ≤ 20) (cs : List Call)
    (hcs : WritesOnly cs) :
    (c.hasScoreboard = true →
      (∀ p, (after c cs).predWr p = (predicted c cs p).drop (observed cs p).length ∧
        (after c cs).bufWrObs p = (observed cs p).drop (predicted c cs p).length) ∧
      (after c cs).mismatch = BitVec.ofNat 32 (axiErrors c cs +
        (((pairsOf c cs false).map (wrDiffs c false)).sum + ((pairsOf c cs true).map (wrDiffs c true)).sum)) ∧
      (after c cs).slvShadow = (pairsOf c cs true).foldl (fun g x => commit c g x.2)
        ((pairsOf c cs false).foldl (fun g x => commit c g x.2) fun _ => none)) ∧
    (∀ cs' p, cs' <+: cs → (after c cs').predWr p = [] ∨ (after c cs').bufWrObs p = []) ∧
    ∀ cs', cs.Perm cs' → (∀ p, predicted c cs p = predicted c cs' p ∧ observed cs p = observed cs' p) →
      after c cs = after c cs' := by
  refine ⟨fun hc => ?_, fun cs' p hpre => ?_, fun cs' hperm hsame => ?_⟩
  · obtain ⟨hs, h⟩ := tracks_after hc hcs.no_read
    exact ⟨fun p => ⟨h.paired.left_eq p, h.paired.right_eq p⟩, h.mismatch_eq, h.shadow_eq hwidth hcs⟩
  · cases hc : c.hasScoreboard with
    | false =>
      rw [after_off hc]
      exact Or.inl rfl
    | true =>
      obtain ⟨hs, h⟩ := tracks_after hc fun k hk => hcs.no_read k (hpre.mem hk)
      exact h.paired.one_empty p
  · have hcs' : WritesOnly cs' := fun k hk => hcs k (hperm.mem_iff.2 hk)
    cases hc : c.hasScoreboard with
    | false => rw [after_off hc, after_off hc]
    | true =>
      obtain ⟨hs, h⟩ := tracks_after hc hcs.no_read
      obtain ⟨hs', h'⟩ := tracks_after hc hcs'.no_read
      exact h.unique hwidth h' hcs hcs' (funext fun p => (hsame p).1) (funext fun p => (hsame p).2)
        (hperm.map _).sum_eq

/-- A write of two beats and one to the other port: the last beat is observed late and with a wrong byte. -/
theorem writes_pair_off_late :
    let t : Call := .axiWr ⟨0x1000, 1, 0b011, 0b01, 0b00, [0x11, 0x22], [0xff, 0x0f]⟩
    let u : Call := .axiWr ⟨0x80001000, 0, 0b011, 0b01, 0b00, [0x33], [0xff]⟩
    let x : Call := .apb false ⟨0, 0x1000, true, 0x11, 0xff, 0, false⟩
    let y : Call := .apb false ⟨0, 0x1008, true, 0x23, 0x0f, 0, false⟩
    let z : Call := .apb true ⟨1, 0x80001000, true, 0x33, 0xff, 0, false⟩
    after {} [x, y, t, z, u] = after {} [z, u, t, x, y] ∧ (after {} [z, u, t, x, y]).mismatch = 1 := by
  intro t u x y z
  have hcs : WritesOnly [x, y, t, z, u] := by
    simp [WritesOnly, t, u, x, y, z, portIx]
  exact ⟨(writes_pair_off {} (by decide) _ hcs).2.2 [z, u, t, x, y] (by decide) (by decide), by decide⟩

end Scoreboard

end AxiApb
