import AxiApb.BridgeMonitors

/-!
# The monitors beside the burst bridge

`Tracks` says what the monitors hold and have delivered in each phase of the bridge, and `kept_step` is one edge.  The
monitors report just the transactions of the run, in order, whatever the races: the only thing a race can do is to delay
the report of a write by one edge (`monitors_exact`).
-/

namespace AxiApb

namespace Monitors

open Clocked Scoreboard

/-! ### What the monitor holds of a transaction -/

section
variable {idWidth : Nat}

/-- The burst of the beats `ws`. -/
def burst (ws : List (WBeat (contract idWidth))) : AxiWrTr := ws.foldl pushBeat newWr

/-- The read of which the beats `rs` were collected, none with `RLAST`. -/
def collected (q : Req (contract idWidth)) (rs : List (RBeat (contract idWidth))) : AxiRdTr :=
  ⟨q.addr.setWidth 64, q.len, q.size, q.burst, 0, rs.map fun r => packDw r.rdata⟩

section
variable {q : Req (contract idWidth)} {ws : List (WBeat (contract idWidth))} {rs : List (RBeat (contract idWidth))}

theorem burst_concat (ws : List (WBeat (contract idWidth))) (w : WBeat (contract idWidth)) :
    burst (ws ++ [w]) = pushBeat (burst ws) w := by
  rw [burst, List.foldl_append]
  rfl

theorem burst_wdata (ws : List (WBeat (contract idWidth))) : (burst ws).wdata = ws.map (·.wdata) := by
  induction ws using List.reverseRecOn with
  | nil => rfl
  | append_singleton ws w ih =>
    rw [burst_concat, pushBeat, List.map_append, ih, packDw, BitVec.setWidth_eq]
    rfl

theorem burst_wstrb (ws : List (WBeat (contract idWidth))) : (burst ws).wstrb = ws.map (·.wstrb.setWidth 8) := by
  induction ws using List.reverseRecOn with
  | nil => rfl
  | append_singleton ws w ih =>
    rw [burst_concat, pushBeat, List.map_append, ih, packStrb]
    rfl

/-- The report of a write is put together from its descriptors. -/
theorem report_write (q : Req (contract idWidth)) (ws : List (WBeat (contract idWidth)))
    (b : BBeat (contract idWidth)) :
    { awDesc q with wdata := (burst ws).wdata, wstrb := (burst ws).wstrb, bresp := b.bresp } = wrTr q ws b := by
  rw [burst_wdata, burst_wstrb]
  rfl

theorem collected_concat (r : RBeat (contract idWidth)) :
    { collected q rs with rdata := (collected q rs).rdata ++ [packDw r.rdata] } = collected q (rs ++ [r]) := by
  simp [collected]

theorem report_read (r : RBeat (contract idWidth)) :
    { collected q rs with rdata := (collected q rs).rdata ++ [packDw r.rdata], rresp := r.rresp } =
      rdTr q (rs ++ [r]) := by
  simp [collected, rdTr, packDw]

end

/-! ### The transfers of a transaction -/

/-- The reported transfers `obss` for the beats `ws` of a write, with the errors `es`. -/
structure WReported (q : Req (contract idWidth)) (ws : List (WBeat (contract idWidth))) (es : List Bool)
    (obss : List ApbTr) : Prop where
  errs : obss.map (·.pslverr) = es
  lines : ∀ n w obs, ws[n]? = some w → obss[n]? = some obs →
    AtBeat q n obs ∧ obs.pwrite = true ∧ obs.pwdata = w.wdata ∧ obs.pstrb = w.wstrb.setWidth 8

/-- The reported transfers `obss` of the completed reads `ds`. -/
structure RReported (q : Req (contract idWidth)) (ds : List (ReadDone (contract idWidth))) (obss : List ApbTr) :
    Prop where
  answers : obss.map (fun obs => (obs.prdata, obs.pslverr)) = ds.map fun d => (d.prdata, d.pslverr)
  lines : ∀ n obs, obss[n]? = some obs → AtBeat q n obs ∧ obs.pwrite = false

section
variable {q : Req (contract idWidth)} {ws : List (WBeat (contract idWidth))} {es : List Bool} {obss : List ApbTr}
  {obs : ApbTr} {w : WBeat (contract idWidth)} {ds : List (ReadDone (contract idWidth))} {i : In (contract idWidth)}

theorem WReported.length_eq (h : WReported q ws es obss) : obss.length = es.length := by
  rw [← h.errs, List.length_map]

theorem RReported.length_eq (h : RReported q ds obss) : obss.length = ds.length := by
  have := congrArg List.length h.answers
  rwa [List.length_map, List.length_map] at this

theorem WReported.done (h : WReported q ws es obss) (hq : q.Legal) (hlen : es.length = ws.length)
    (hobs : Reports (q.writeCtrl ws.length w) q.port i obs) :
    WReported q (ws ++ [w]) (es ++ [i.pslverr q.port]) (obss ++ [obs]) where
  errs := by rw [List.map_append, h.errs, List.map_singleton, hobs.2.2.2.2.2]
  lines := by
    intro n v o hv ho
    have hlen' : obss.length = ws.length := h.length_eq.trans hlen
    rcases Nat.lt_trichotomy n ws.length with hn | hn | hn
    · rw [List.getElem?_append_left hn] at hv
      rw [List.getElem?_append_left (hlen'.symm ▸ hn)] at ho
      exact h.lines n v o hv ho
    · subst hn
      rw [List.getElem?_concat_length, Option.some.injEq] at hv
      rw [← hlen', List.getElem?_concat_length, Option.some.injEq] at ho
      subst hv ho
      obtain ⟨hport, haddr, hwrite, hpay, -⟩ := hobs
      obtain ⟨hdata, hstrb⟩ := hpay _ rfl
      have hsup := Req.legal_iff_supported.1 hq
      refine ⟨⟨hport, ?_⟩, hwrite, ?_, hstrb⟩
      · rw [haddr, Req.writeCtrl, Req.beatAddr_contract hsup.1]
      · rw [hdata, packDw, BitVec.setWidth_eq]
    · rw [List.getElem?_eq_none (by simpa using hn)] at hv
      cases hv

theorem RReported.done (h : RReported q ds obss) (hq : q.Legal) (hobs : Reports (q.readCtrl ds.length) q.port i obs) :
    RReported q (ds ++ [⟨i.prdata q.port, i.pslverr q.port⟩]) (obss ++ [obs]) where
  answers := by
    obtain ⟨-, -, -, -, hdata, herr⟩ := hobs
    rw [List.map_append, List.map_append, h.answers, List.map_singleton, List.map_singleton, hdata, herr, packDw,
      BitVec.setWidth_eq]
  lines := by
    intro n o ho
    have hlen := h.length_eq
    rcases Nat.lt_trichotomy n obss.length with hn | hn | hn
    · rw [List.getElem?_append_left hn] at ho
      exact h.lines n o ho
    · subst hn
      rw [List.getElem?_concat_length, Option.some.injEq] at ho
      subst ho
      obtain ⟨hport, haddr, hwrite, -⟩ := hobs
      have hsup := Req.legal_iff_supported.1 hq
      refine ⟨⟨hport, ?_⟩, hwrite⟩
      rw [haddr, Req.readCtrl, Req.beatAddr_contract hsup.1, hlen]
    · rw [List.getElem?_eq_none (by simpa using hn)] at ho
      cases ho

/-- A rejected write has no transfers. -/
theorem WReported.rejected (h : WReported q ws es obss) (hlen : es.length = 0) (w : WBeat (contract idWidth)) :
    WReported q (ws ++ [w]) es obss := by
  have hnil : obss = [] := List.eq_nil_of_length_eq_zero (h.length_eq.trans hlen)
  refine ⟨h.errs, fun n v o _ ho => ?_⟩
  rw [hnil] at ho
  cases ho

theorem WReported.nil (q : Req (contract idWidth)) : WReported q [] [] [] :=
  ⟨rfl, fun _ _ _ h => by cases h⟩

theorem RReported.nil (q : Req (contract idWidth)) : RReported q [] [] :=
  ⟨rfl, fun _ _ h => by cases h⟩

/-! ### The contract -/

/-- A write that is over follows the contract. -/
theorem follows_write {v : Bool} (hok : (Burst.Phase.wresp q ws es v).Ok) (h : WReported q ws es obss) :
    (Txn.write q ws (q.bBeat ws es) obss).Follows := by
  obtain ⟨⟨ws', w, rfl, hopen⟩, hend, hlen⟩ := hok
  have hle : (ws' ++ [w]).length ≤ q.len.toNat + 1 := by
    have := (Req.wEnded_eq_false.1 hopen).2
    simpa using this
  constructor
  · intro hsup
    have hq := Req.legal_iff_supported.2 hsup
    have herr : es.contains true = true ↔ ∃ obs ∈ obss, obs.pslverr = true := by
      rw [← h.errs]
      simp
    have hcond : (es.contains true || q.malformed (ws' ++ [w])) = true ↔
        (∃ obs ∈ obss, obs.pslverr = true) ∨ Malformed q.len (ws' ++ [w]) := by
      rw [Bool.or_eq_true, herr, malformed_iff hle]
    rw [if_pos hq] at hlen
    refine ⟨length_eq_writeBeats hopen hend, h.length_eq.trans hlen, h.lines, fun hbad => ?_, fun hgood => ?_⟩
    · rw [Req.bBeat, if_pos hq, if_pos (hcond.2 hbad)]
    · rw [Req.bBeat, if_pos hq, if_neg (mt hcond.1 hgood)]
  · intro hsup
    have hq : ¬ q.Legal := mt Req.legal_iff_supported.1 hsup
    rw [if_neg hq] at hlen
    refine ⟨List.eq_nil_of_length_eq_zero (h.length_eq.trans hlen), ?_⟩
    rw [Req.bBeat, if_neg hq]

/-- A supported read that is over follows the contract. -/
theorem follows_read (hq : q.Legal) (hlen : ds.length = q.beats) (h : RReported q ds obss) :
    (Txn.read q (q.returns ds) obss).Follows := by
  refine ⟨fun _ => ⟨?_, ?_, h.lines, ?_⟩, fun hsup => absurd (Req.legal_iff_supported.1 hq) hsup⟩
  · rw [Req.returns, List.length_mapIdx, hlen, Req.beats]
  · rw [h.length_eq, hlen, Req.beats]
  · intro n r obs hr ho
    rw [Req.returns, List.getElem?_mapIdx, Option.map_eq_some_iff] at hr
    obtain ⟨d, hd, rfl⟩ := hr
    have hans := congrArg (·[n]?) h.answers
    simp only [List.getElem?_map, ho, hd, Option.map_some, Option.some.injEq, Prod.mk.injEq] at hans
    exact ⟨hans.1.symm, by rw [Req.rBeat, hans.2]⟩

/-- So does a read that is rejected. -/
theorem follows_rejected_read (hq : ¬ q.Legal) : (Txn.read q (q.padding q.beats) []).Follows := by
  refine ⟨fun hsup => absurd (Req.legal_iff_supported.2 hsup) hq, fun _ => ⟨rfl, ?_, fun r hr => ?_⟩⟩
  · rw [Req.padding, List.length_map, List.length_range, Req.beats]
  · obtain ⟨n, -, rfl⟩ := List.mem_map.1 hr
    exact ⟨rfl, rfl⟩

end

end

/-! ### The monitors beside the phases of the bridge -/

section
variable {idWidth : Nat}

/-- The monitor during a write with the beats `ws`, whose burst has ended or not. -/
def writing (q : Req (contract idWidth)) (ws : List (WBeat (contract idWidth))) (ended : Bool) : AxiMon :=
  if ended then ⟨[awDesc q], [burst ws], newWr, false, none⟩ else ⟨[awDesc q], [], burst ws, false, none⟩

/-- The monitor during a read of which the beats `rs` were accepted. -/
def reading (q : Req (contract idWidth)) (rs : List (RBeat (contract idWidth))) : AxiMon :=
  ⟨[], [], newWr, false, some (collected q rs, rs.length)⟩

/-- The calls `k` that were delivered, the transactions `h`, the monitor and `BRESP` in a phase of the bridge. -/
def Tracks (k : List Call) (h : History idWidth) (m : AxiMon) (bresp : BitVec 2) :
    Burst.Phase (contract idWidth) → Prop
  | .idle => h.current = none ∧
      ((k = h.calls ∧ m = .new) ∨
        -- the report of a write is one edge late
        ∃ q ws b obss, h.done.getLast? = some (.write q ws b obss) ∧ k ++ [.axiWr (wrTr q ws b)] = h.calls ∧
          m = ⟨[awDesc q], [burst ws], newWr, true, none⟩ ∧ bresp = b.bresp)
  | .wdata q ws es => ∃ obss, h.current = some (.write q ws obss) ∧ WReported q ws es obss ∧ k = h.calls ∧
      m = writing q ws false
  | .wapb q ws w es _ => ∃ obss, h.current = some (.write q (ws ++ [w]) obss) ∧ WReported q ws es obss ∧
      k = h.calls ∧ m = writing q (ws ++ [w]) w.wlast
  | .wresp q ws es _ => ∃ obss ended, h.current = some (.write q ws obss) ∧ WReported q ws es obss ∧ k = h.calls ∧
      m = writing q ws ended
  | .rfetch q ds => ∃ obss, h.current = some (.read q (q.returns ds) obss) ∧ RReported q ds obss ∧ k = h.calls ∧
      m = reading q (q.returns ds)
  | .rapb q ds _ => ∃ obss, h.current = some (.read q (q.returns ds) obss) ∧ RReported q ds obss ∧ k = h.calls ∧
      m = reading q (q.returns ds)
  | .rbuf q ds d _ => ∃ obss, h.current = some (.read q (q.returns ds) obss) ∧ RReported q (ds ++ [d]) obss ∧
      k = h.calls ∧ m = reading q (q.returns ds)
  | .rerr q n _ => h.current = some (.read q (q.padding n) []) ∧ k = h.calls ∧ m = reading q (q.padding n)

/-- After an edge at which the calls `c` are delivered and the B beats `bs` accepted: all reports are out unless a write
has ended just now. -/
structure Kept (k : List Call) (h : History idWidth) (m : AxiMon) (bresp : BitVec 2)
    (ph : Burst.Phase (contract idWidth)) (c : List Call) (bs : List (BBeat (contract idWidth))) : Prop where
  tracks : Tracks (k ++ c) h m bresp ph
  follows : ∀ t ∈ h.done, t.Follows
  single : c.length ≤ 1
  prompt : bs = [] → k ++ c = h.calls

/-! ### The calls of a history -/

section
variable {h : History idWidth} {q : Req (contract idWidth)} {ws : List (WBeat (contract idWidth))}
  {rs : List (RBeat (contract idWidth))} {obss : List ApbTr} {v : Sample (contract idWidth)}

theorem calls_of_none (hc : h.current = none) : h.calls = h.done.flatMap Txn.calls := by
  rw [History.calls, hc]
  exact List.append_nil _

theorem calls_of_some {t : Started idWidth} (hc : h.current = some t) :
    h.calls = h.done.flatMap Txn.calls ++ t.transfers.map (.apb t.port) := by
  rw [History.calls, hc]
  simp

theorem calls_started {t : Started idWidth} (hc : h.current = none) (ht : t.transfers = []) :
    ({ h with current := some t } : History idWidth).calls = h.calls := by
  rw [calls_of_none hc, calls_of_some rfl, ht]
  exact List.append_nil _

theorem calls_grown {t t' : Started idWidth} {obss' : List ApbTr} (hc : h.current = some t) (hport : t'.port = t.port)
    (ht : t'.transfers = t.transfers ++ obss') :
    ({ h with current := some t' } : History idWidth).calls = h.calls ++ obss'.map (.apb t.port) := by
  rw [calls_of_some hc, calls_of_some rfl, ht, hport, List.map_append, List.append_assoc]

theorem calls_closed {t : Started idWidth} (t' : Txn idWidth) (obss' : List ApbTr) (hc : h.current = some t)
    (hport : t'.port = t.port) (ht : t'.transfers = t.transfers ++ obss') :
    (⟨h.done ++ [t'], none⟩ : History idWidth).calls = h.calls ++ obss'.map (.apb t.port) ++ [t'.axi] := by
  rw [calls_of_some hc, calls_of_none rfl, List.flatMap_append, List.flatMap_singleton, Txn.calls, ht, hport]
  simp only [List.map_append, List.append_assoc]

theorem note_write (hc : h.current = some (.write q ws obss)) (hb : bTaken v.cycle = []) : h.note v =
    { h with current := some (.write q (ws ++ wTaken v.cycle) (obss ++ (apbEvent false v ++ apbEvent true v))) } := by
  rw [History.note, hc, hb]

theorem note_write_last {b : BBeat (contract idWidth)} (hc : h.current = some (.write q ws obss))
    (hb : bTaken v.cycle = [b]) : h.note v =
      ⟨h.done ++ [.write q (ws ++ wTaken v.cycle) b (obss ++ (apbEvent false v ++ apbEvent true v))], none⟩ := by
  rw [History.note, hc, hb]

theorem note_read (hc : h.current = some (.read q rs obss)) (hr : (rTaken v.cycle).any (·.rlast) = false) :
    h.note v =
      { h with current := some (.read q (rs ++ rTaken v.cycle) (obss ++ (apbEvent false v ++ apbEvent true v))) } := by
  simp [History.note, hc, hr]

theorem note_read_last (hc : h.current = some (.read q rs obss)) (hr : (rTaken v.cycle).any (·.rlast) = true) :
    h.note v =
      ⟨h.done ++ [.read q (rs ++ rTaken v.cycle) (obss ++ (apbEvent false v ++ apbEvent true v))], none⟩ := by
  simp [History.note, hc, hr]

end

/-! ### One edge -/

section
variable {k : List Call} {h : History idWidth} {m : AxiMon} {s : Burst.State (contract idWidth)}
  {ph : Burst.Phase (contract idWidth)} {q : Req (contract idWidth)} {ws : List (WBeat (contract idWidth))}
  {w : WBeat (contract idWidth)} {es : List Bool} {ds : List (ReadDone (contract idWidth))}
  {d : ReadDone (contract idWidth)} {ρ : Race} {i : In (contract idWidth)}

private theorem quiet_wires (hr : Burst.Rel s ph) (hm : m.waiting = false) (hidle : ph.isIdle = false)
    (hw : (i.wvalid && ph.wready) = false) (hb : ph.b = none) (hrr : ph.r = none ∨ i.rready = false) :
    m.step ρ (i, wires s i) = (m, []) := by
  have hc := cycle_wires hr i
  refine step_quiet hm ?_ ?_ ?_ ?_ ?_
  · rw [hc, awAccepted, Burst.awTaken_busy hidle]; rfl
  · rw [hc, arAccepted, Burst.arTaken_busy hidle]; rfl
  · rw [hc, Burst.wTaken_out, hw]; rfl
  · rw [hc]; exact hb
  · rw [hc, Burst.rTaken_out]
    rcases hrr with h | h <;> simp [h]

private theorem writing_waiting (q : Req (contract idWidth)) (ws : List (WBeat (contract idWidth))) (b : Bool) :
    (writing q ws b).waiting = false := by
  cases b <;> rfl

/-- Between transactions a late report goes out, and a request is noted. -/
private theorem idle_monitor (ρ : Race) (i : In (contract idWidth)) (hr : Burst.Rel s .idle) (ht : Tracks k h m s.bresp .idle) :
    ∃ c, m.step ρ (i, wires s i) =
        (⟨wrAwCapture (Sample.cycle (i, wires s i)), [], newWr, false, (rdLoop none (Sample.cycle (i, wires s i))).1⟩, c) ∧
      k ++ c = h.calls ∧ c.length ≤ 1 := by
  have hc := cycle_wires hr i
  have hw : wTaken (Sample.cycle (i, wires s i)) = [] := by rw [hc]; exact Burst.wTaken_idle i
  have hb : (Sample.cycle (i, wires s i)).2.b = none := by rw [hc]; rfl
  have hrd : (rdLoop none (Sample.cycle (i, wires s i))).2 = [] := rfl
  obtain ⟨-, ⟨hk, rfl⟩ | ⟨q, ws, b, obss, -, hk, rfl, hresp⟩⟩ := ht
  · refine ⟨[], ?_, by rw [List.append_nil, hk], by simp⟩
    rw [AxiMon.step, AxiMon.new, wrWCapture_none hw hb]
    simp only [Bool.false_eq_true, if_false]
    rw [wrBCapture_pass rfl (bTaken_none hb), hrd]
    rfl
  · refine ⟨[.axiWr (wrTr q ws b)], ?_, hk, by simp⟩
    rw [AxiMon.step, wrWCapture_none hw hb]
    simp only [Bool.false_eq_true, if_false]
    rw [wrBCapture_pop (Or.inl rfl) rfl rfl, hrd]
    simp only [wires, hresp, report_write, List.nil_append, List.append_nil]

private theorem kept_idle (hr : Burst.Rel s .idle) (ht : Tracks k h m s.bresp .idle) (hf : ∀ t ∈ h.done, t.Follows) :
    Kept k (h.note (i, wires s i)) (m.step ρ (i, wires s i)).1 (Burst.posedge s i).bresp
      ((Burst.Phase.idle : Burst.Phase (contract idWidth)).step i)
      (apbCalls (i, wires s i) ++ (m.step ρ (i, wires s i)).2) (bTaken (Sample.cycle (i, wires s i))) := by
  have hc := cycle_wires hr i
  have haw : awTaken (Sample.cycle (i, wires s i)) = (i.awvalid && !i.arvalid) := by rw [hc]; rfl
  have har : arTaken (Sample.cycle (i, wires s i)) = (i.arvalid && !i.awvalid) := by rw [hc]; rfl
  have hreqs : (Sample.cycle (i, wires s i)).1 = i := rfl
  obtain ⟨c, hstep, hk, hone⟩ := idle_monitor ρ i hr ht
  obtain ⟨-, hapb⟩ := events_quiet (i := i) hr (fun _ => rfl)
  have hcur := ht.1
  have hnote : ∀ v : Sample (contract idWidth), h.note v = { h with
      current := if awTaken v.cycle then some (.write v.1.awReq [] [])
        else if arTaken v.cycle then some (.read v.1.arReq [] []) else none } := fun v => by rw [History.note, hcur]
  rw [hstep, hapb, List.nil_append, hnote, haw, har, wrAwCapture, awAccepted, haw, Burst.Phase.step]
  cases hw : i.awvalid && !i.arvalid with
  | true =>
    have hno : (i.arvalid && !i.awvalid) = false := by
      obtain ⟨-, hv⟩ : i.awvalid = true ∧ i.arvalid = false := by simpa using hw
      rw [hv, Bool.false_and]
    rw [rdLoop, arAccepted, har, hno]
    have hcalls := calls_started (t := .write i.awReq [] []) hcur rfl
    exact ⟨⟨[], rfl, .nil _, hk.trans hcalls.symm, rfl⟩, hf, hone, fun _ => hk.trans hcalls.symm⟩
  | false =>
    cases hrd : i.arvalid && !i.awvalid with
    | true =>
      rw [rdLoop, arAccepted, har, hrd]
      have hcalls := calls_started (t := .read i.arReq [] []) hcur rfl
      refine ⟨?_, hf, hone, fun _ => hk.trans hcalls.symm⟩
      simp only [Bool.false_eq_true, if_false, if_true, Burst.Phase.startRead]
      split
      · exact ⟨[], rfl, .nil _, hk.trans hcalls.symm, rfl⟩
      · exact ⟨rfl, hk.trans hcalls.symm, rfl⟩
    | false =>
      rw [rdLoop, arAccepted, har, hrd]
      have hcalls : ({ h with current := none } : History idWidth).calls = h.calls := by
        rw [calls_of_none rfl, calls_of_none hcur]
      exact ⟨⟨rfl, Or.inl ⟨hk.trans hcalls.symm, rfl⟩⟩, hf, hone, fun _ => hk.trans hcalls.symm⟩

/-- A transaction that goes on, with the transfers `obss'` of this edge. -/
private theorem kept_on {t : Started idWidth} {m' : AxiMon} {bresp : BitVec 2} {bs : List (BBeat (contract idWidth))}
    (t' : Started idWidth) (obss' : List ApbTr) (hk : k = h.calls) (hc : h.current = some t) (hport : t'.port = t.port)
    (ht : t'.transfers = t.transfers ++ obss') (hone : obss'.length ≤ 1) (hf : ∀ t ∈ h.done, t.Follows)
    (htracks : ∀ k, k = ({ h with current := some t' } : History idWidth).calls →
      Tracks k { h with current := some t' } m' bresp ph) :
    Kept k { h with current := some t' } m' bresp ph (obss'.map (.apb t.port)) bs := by
  have hcalls := calls_grown hc hport ht
  have hkc : k ++ obss'.map (.apb t.port) = ({ h with current := some t' } : History idWidth).calls := by
    rw [hcalls, hk]
  exact ⟨htracks _ hkc, hf, by rwa [List.length_map], fun _ => hkc⟩

private theorem kept_wdata (hr : Burst.Rel s (.wdata q ws es)) (ht : Tracks k h m s.bresp (.wdata q ws es))
    (hf : ∀ t ∈ h.done, t.Follows) :
    Kept k (h.note (i, wires s i)) (m.step ρ (i, wires s i)).1 (Burst.posedge s i).bresp
      ((Burst.Phase.wdata q ws es).step i)
      (apbCalls (i, wires s i) ++ (m.step ρ (i, wires s i)).2) (bTaken (Sample.cycle (i, wires s i))) := by
  have hc := cycle_wires hr i
  have hb : (Sample.cycle (i, wires s i)).2.b = none := by rw [hc]; rfl
  obtain ⟨hev, hapb⟩ := events_quiet (i := i) hr (fun _ => rfl)
  obtain ⟨obss, hcur, hrep, hk, rfl⟩ := ht
  obtain ⟨hopen, hlen⟩ := hr.ok
  rw [note_write hcur (bTaken_none hb), hev, hapb, List.nil_append, List.append_nil, Burst.Phase.step]
  cases hv : i.wvalid with
  | false =>
    have hwt : wTaken (Sample.cycle (i, wires s i)) = [] := by rw [hc, Burst.wTaken_out, hv]; rfl
    rw [quiet_wires hr rfl rfl (by rw [hv]; rfl) rfl (Or.inl rfl), hwt, List.append_nil]
    exact kept_on (.write q ws obss) [] hk hcur rfl (List.append_nil _).symm (by simp) hf fun k hk =>
      ⟨obss, rfl, hrep, hk, rfl⟩
  | true =>
    have hwt : wTaken (Sample.cycle (i, wires s i)) = [i.wBeat] := by rw [hc, Burst.wTaken_out, hv]; rfl
    have haw : awAccepted (Sample.cycle (i, wires s i)) = [] := by rw [hc, awAccepted, Burst.awTaken_busy rfl]; rfl
    have har : arAccepted (Sample.cycle (i, wires s i)) = [] := by rw [hc, arAccepted, Burst.arTaken_busy rfl]; rfl
    have hrt : rTaken (Sample.cycle (i, wires s i)) = [] := by rw [hc]; exact rTaken_none rfl
    have hmon : (writing q ws false).step ρ (i, wires s i) = (writing q (ws ++ [i.wBeat]) i.wBeat.wlast, []) := by
      rw [writing, if_neg Bool.false_ne_true, AxiMon.step, wrWCapture_beat hwt hb, rdLoop_pass hrt har, wrAwCapture, haw,
        wrBCapture_pass rfl (bTaken_none hb), ← burst_concat]
      cases i.wBeat.wlast <;> rfl
    rw [hmon, hwt, if_pos rfl, Burst.Phase.takeW]
    refine kept_on (.write q (ws ++ [i.wBeat]) obss) [] hk hcur rfl (List.append_nil _).symm (by simp) hf fun k hk => ?_
    by_cases hq : q.Legal
    · rw [if_pos hq]
      exact ⟨obss, rfl, hrep, hk, rfl⟩
    · rw [if_neg hq] at hlen ⊢
      have hrep' := hrep.rejected hlen i.wBeat
      split
      · exact ⟨obss, _, rfl, hrep', hk, rfl⟩
      · rename_i hend
        have hlast : i.wBeat.wlast = false := by
          rw [Req.wEnded_concat hopen, Bool.or_eq_true, not_or] at hend
          simpa using hend.1
        exact ⟨obss, rfl, hrep', hk, by rw [hlast]⟩

private theorem kept_wapb {en : Bool} (hr : Burst.Rel s (.wapb q ws w es en))
    (ht : Tracks k h m s.bresp (.wapb q ws w es en)) (hf : ∀ t ∈ h.done, t.Follows) :
    Kept k (h.note (i, wires s i)) (m.step ρ (i, wires s i)).1 (Burst.posedge s i).bresp
      ((Burst.Phase.wapb q ws w es en).step i)
      (apbCalls (i, wires s i) ++ (m.step ρ (i, wires s i)).2) (bTaken (Sample.cycle (i, wires s i))) := by
  have hc := cycle_wires hr i
  have hb : (Sample.cycle (i, wires s i)).2.b = none := by rw [hc]; rfl
  have hwready : (i.wvalid && (Burst.Phase.wapb q ws w es en).wready) = false := by simp [Burst.Phase.wready]
  have hwt : wTaken (Sample.cycle (i, wires s i)) = [] := by rw [hc, Burst.wTaken_out, hwready]; rfl
  obtain ⟨obss', hev, hapb, hdone⟩ := events_drive (i := i) (k := q.writeCtrl ws.length w) hr (fun _ => rfl)
  obtain ⟨obss, hcur, hrep, hk, rfl⟩ := ht
  obtain ⟨hq, hopen, hlen⟩ := hr.ok
  rw [note_write hcur (bTaken_none hb), hev, hapb, hwt, List.append_nil,
    quiet_wires hr (writing_waiting ..) rfl hwready rfl (Or.inl rfl), List.append_nil]
  cases hgo : en && i.pready q.port with
  | false =>
    rw [hgo, if_neg Bool.false_ne_true] at hdone
    subst hdone
    have hstay : ∃ en', (Burst.Phase.wapb q ws w es en).step i = .wapb q ws w es en' := by
      cases en with
      | false => exact ⟨true, rfl⟩
      | true =>
        rw [Bool.true_and] at hgo
        exact ⟨true, by rw [Burst.Phase.step, hgo]; rfl⟩
    obtain ⟨en', hstay⟩ := hstay
    rw [hstay]
    exact kept_on (.write q (ws ++ [w]) (obss ++ [])) [] hk hcur rfl rfl (by simp) hf fun k hk =>
      ⟨obss, by simp, hrep, hk, rfl⟩
  | true =>
    rw [hgo, if_pos rfl] at hdone
    obtain ⟨obs, rfl, hobs⟩ := hdone
    obtain ⟨rfl, hp⟩ : en = true ∧ i.pready q.port = true := by simpa using hgo
    have hrep' := hrep.done hq hlen hobs
    rw [Burst.Phase.step, if_pos hp, Burst.Phase.wDone]
    refine kept_on (.write q (ws ++ [w]) (obss ++ [obs])) [obs] hk hcur rfl rfl (by simp) hf fun k hk => ?_
    split
    · exact ⟨_, _, rfl, hrep', hk, rfl⟩
    · rename_i hend
      have hlast : w.wlast = false := by
        rw [Req.wEnded_concat hopen, Bool.or_eq_true, not_or] at hend
        simpa using hend.1
      exact ⟨_, rfl, hrep', hk, by rw [hlast]⟩

/-- A transaction that ends with this edge, whose report goes out. -/
private theorem kept_end {t : Started idWidth} {t' : Txn idWidth} {m' : AxiMon} {bresp : BitVec 2}
    {bs : List (BBeat (contract idWidth))} (hk : k = h.calls) (hc : h.current = some t) (hport : t'.port = t.port)
    (ht : t'.transfers = t.transfers) (hf : ∀ t ∈ h.done, t.Follows) (hf' : t'.Follows) (hm : m' = .new) :
    Kept k ⟨h.done ++ [t'], none⟩ m' bresp .idle [t'.axi] bs := by
  have hcalls := calls_closed t' [] hc hport (ht.trans (List.append_nil _).symm)
  rw [List.map_nil, List.append_nil, ← hk] at hcalls
  refine ⟨⟨rfl, Or.inl ⟨hcalls.symm, hm⟩⟩, fun u hu => ?_, le_rfl, fun _ => hcalls.symm⟩
  rcases List.mem_append.1 hu with hu | hu
  · exact hf u hu
  · rw [List.mem_singleton.1 hu]
    exact hf'

/-- The B registers keep the response that was accepted. -/
private theorem bresp_held {b : BBeat (contract idWidth)} (hr : Burst.Rel s ph) (hb : ph.b = some b) :
    s.bresp = b.bresp ∧ (i.bready = true → (Burst.posedge s i).bresp = s.bresp) := by
  have hbv : s.bvalid = true := by rw [hr.bvalid, hb]; rfl
  have hbeat := hr.b
  rw [hbv, if_pos rfl, hb, Option.some.injEq] at hbeat
  refine ⟨congrArg BBeat.bresp hbeat, fun hready => ?_⟩
  show (Burst.bBlock s i).bresp = _
  rw [Burst.bBlock, hbv, hready]
  rfl

private theorem kept_wresp {b : Bool} (hr : Burst.Rel s (.wresp q ws es b)) (ht : Tracks k h m s.bresp (.wresp q ws es b))
    (hf : ∀ t ∈ h.done, t.Follows) :
    Kept k (h.note (i, wires s i)) (m.step ρ (i, wires s i)).1 (Burst.posedge s i).bresp
      ((Burst.Phase.wresp q ws es b).step i)
      (apbCalls (i, wires s i) ++ (m.step ρ (i, wires s i)).2) (bTaken (Sample.cycle (i, wires s i))) := by
  have hc := cycle_wires hr i
  have hwready : (i.wvalid && (Burst.Phase.wresp q ws es b).wready) = false := by simp [Burst.Phase.wready]
  have hwt : wTaken (Sample.cycle (i, wires s i)) = [] := by rw [hc, Burst.wTaken_out, hwready]; rfl
  have haw : awAccepted (Sample.cycle (i, wires s i)) = [] := by rw [hc, awAccepted, Burst.awTaken_busy rfl]; rfl
  have har : arAccepted (Sample.cycle (i, wires s i)) = [] := by rw [hc, arAccepted, Burst.arTaken_busy rfl]; rfl
  have hrt : rTaken (Sample.cycle (i, wires s i)) = [] := by rw [hc]; exact rTaken_none rfl
  obtain ⟨hev, hapb⟩ := events_quiet (i := i) hr (fun _ => rfl)
  obtain ⟨obss, ended, hcur, hrep, hk, rfl⟩ := ht
  rw [hapb, List.nil_append]
  cases b with
  | false =>
    have hb : (Sample.cycle (i, wires s i)).2.b = none := by rw [hc]; rfl
    rw [note_write hcur (bTaken_none hb), hev, hwt, List.append_nil, List.append_nil,
      quiet_wires hr (writing_waiting ..) rfl hwready rfl (Or.inl rfl)]
    exact kept_on (.write q ws obss) [] hk hcur rfl (List.append_nil _).symm (by simp) hf fun k hk =>
      ⟨obss, ended, rfl, hrep, hk, rfl⟩
  | true =>
    have hb : (Sample.cycle (i, wires s i)).2.b = some (q.bBeat ws es) := by rw [hc]; rfl
    obtain ⟨hresp, hkeep⟩ := bresp_held (i := i) hr rfl
    have hpos : 0 < (burst ws).wdata.length := by
      obtain ⟨⟨ws', w, hws, -⟩, -⟩ := hr.ok
      simp [burst_wdata, hws]
    -- the burst is over after this edge, at the latest
    have hcap : wrWCapture ρ (writing q ws ended).d (Sample.cycle (i, wires s i)) =
        if ended then (newWr, false) else (burst ws, true) := by
      rw [wrWCapture_bvalid hwt hb]
      cases ended with
      | true => rfl
      | false => simp [writing, hpos]
    have hreport : { awDesc q with
        wdata := (burst ws).wdata, wstrb := (burst ws).wstrb, bresp := s.bresp } = wrTr q ws (q.bBeat ws es) := by
      rw [hresp]
      exact report_write ..
    rw [Burst.Phase.step]
    cases hready : i.bready with
    | false =>
      have hbt : bTaken (Sample.cycle (i, wires s i)) = [] := by rw [hc]; exact bTaken_held hready
      have hmon : (writing q ws ended).step ρ (i, wires s i) = (writing q ws true, []) := by
        rw [AxiMon.step, hcap, rdLoop_pass hrt har, wrAwCapture, haw, wrBCapture_pass (writing_waiting ..) hbt]
        cases ended <;> rfl
      rw [note_write hcur hbt, hev, hwt, List.append_nil, List.append_nil, hmon]
      exact kept_on (.write q ws obss) [] hk hcur rfl (List.append_nil _).symm (by simp) hf fun k hk =>
        ⟨obss, true, rfl, hrep, hk, rfl⟩
    | true =>
      have hbt : bTaken (Sample.cycle (i, wires s i)) = [q.bBeat ws es] := by rw [hc]; exact bTaken_some rfl hready
      have hbne : bTaken (Sample.cycle (i, wires s i)) ≠ [] := by simp [hbt]
      have hfol := follows_write hr.ok hrep
      rw [note_write_last hcur hbt, hev, hwt, List.append_nil, List.append_nil, if_pos rfl]
      have hprompt : (writing q ws ended).step ρ (i, wires s i) = (.new, [.axiWr (wrTr q ws (q.bBeat ws es))]) →
          Kept k ⟨h.done ++ [.write q ws (q.bBeat ws es) obss], none⟩
            ((writing q ws ended).step ρ (i, wires s i)).1 (Burst.posedge s i).bresp .idle
            ((writing q ws ended).step ρ (i, wires s i)).2 (bTaken (Sample.cycle (i, wires s i))) := by
        intro hmon
        rw [hmon]
        exact kept_end hk hcur rfl rfl hf hfol rfl
      cases ended with
      | true =>
        refine hprompt ?_
        rw [AxiMon.step, hcap, rdLoop_pass hrt har, wrAwCapture, haw, wrBCapture_pop (Or.inr hbne) rfl rfl]
        simp only [wires, hreport]
        rfl
      | false =>
        cases hsees : ρ.bSeesWd with
        | true =>
          refine hprompt ?_
          rw [AxiMon.step, hcap, rdLoop_pass hrt har, wrAwCapture, haw, List.map_nil]
          simp only [Bool.false_eq_true, if_false, if_true]
          rw [wrBCapture_race hbne rfl rfl, hsees]
          simp only [wires, hreport]
          rfl
        | false =>
          have hmon : (writing q ws false).step ρ (i, wires s i) =
              (⟨[awDesc q], [burst ws], newWr, true, none⟩, []) := by
            rw [AxiMon.step, hcap, rdLoop_pass hrt har, wrAwCapture, haw, List.map_nil]
            simp only [Bool.false_eq_true, if_false, if_true]
            rw [wrBCapture_race hbne rfl rfl, hsees]
            rfl
          have hcalls := calls_closed (.write q ws (q.bBeat ws es) obss) [] hcur rfl
            (List.append_nil _).symm
          rw [List.map_nil, List.append_nil, ← hk] at hcalls
          rw [hmon]
          refine ⟨⟨rfl, Or.inr ⟨q, ws, q.bBeat ws es, obss, ?_, ?_, rfl, (hkeep hready).trans hresp⟩⟩, ?_, by simp,
            fun hnil => absurd hnil hbne⟩
          · simp
          · rw [List.append_nil]
            exact hcalls.symm
          · intro u hu
            rcases List.mem_append.1 hu with hu | hu
            · exact hf u hu
            · rw [List.mem_singleton.1 hu]
              exact hfol

/-- What a phase of a read shows on the AXI channels but for its R beats. -/
private theorem read_wires (hr : Burst.Rel s ph) (hidle : ph.isIdle = false) (hw : ph.wready = false)
    (hb : ph.b = none) (i : In (contract idWidth)) :
    wTaken (Sample.cycle (i, wires s i)) = [] ∧ (Sample.cycle (i, wires s i)).2.b = none ∧
      awAccepted (Sample.cycle (i, wires s i)) = [] ∧ arAccepted (Sample.cycle (i, wires s i)) = [] := by
  rw [cycle_wires hr i]
  refine ⟨?_, hb, ?_, ?_⟩
  · rw [Burst.wTaken_out, hw, Bool.and_false]; rfl
  · rw [awAccepted, Burst.awTaken_busy hidle]; rfl
  · rw [arAccepted, Burst.arTaken_busy hidle]; rfl

/-- A cycle of a read without an R beat. -/
private theorem kept_silent {rs : List (RBeat (contract idWidth))} {obss obss' : List ApbTr}
    (hr : Burst.Rel s ph) (hidle : ph.isIdle = false) (hw : ph.wready = false) (hb : ph.b = none)
    (hrr : ph.r = none ∨ i.rready = false) (hcur : h.current = some (.read q rs obss)) (hk : k = h.calls)
    (hev : apbEvent false (i, wires s i) ++ apbEvent true (i, wires s i) = obss')
    (hapb : apbCalls (i, wires s i) = obss'.map (.apb q.port)) (hone : obss'.length ≤ 1)
    (hf : ∀ t ∈ h.done, t.Follows)
    (htracks : ∀ k, k = ({ h with current := some (.read q rs (obss ++ obss')) } : History idWidth).calls →
      Tracks k { h with current := some (.read q rs (obss ++ obss')) } (reading q rs) (Burst.posedge s i).bresp
        (ph.step i)) :
    Kept k (h.note (i, wires s i)) ((reading q rs).step ρ (i, wires s i)).1 (Burst.posedge s i).bresp (ph.step i)
      (apbCalls (i, wires s i) ++ ((reading q rs).step ρ (i, wires s i)).2) (bTaken (Sample.cycle (i, wires s i))) := by
  have hrt : rTaken (Sample.cycle (i, wires s i)) = [] := by
    rw [cycle_wires hr i, Burst.rTaken_out]
    rcases hrr with h | h <;> simp [h]
  rw [note_read hcur (by rw [hrt]; rfl), hev, hapb, hrt, List.append_nil,
    quiet_wires hr rfl hidle (by rw [hw, Bool.and_false]) hb hrr, List.append_nil]
  exact kept_on (.read q rs (obss ++ obss')) obss' hk hcur rfl rfl hone hf htracks

/-- An R beat is accepted: the last one ends the read. -/
private theorem kept_beat {rs : List (RBeat (contract idWidth))} {r : RBeat (contract idWidth)} {obss : List ApbTr}
    (hr : Burst.Rel s ph) (hidle : ph.isIdle = false) (hw : ph.wready = false) (hb : ph.b = none)
    (hrr : ph.r = some r) (hready : i.rready = true) (hlast : r.rlast = (rs.length == q.len.toNat))
    (hcur : h.current = some (.read q rs obss)) (hk : k = h.calls) (hquiet : ∀ x, ph.apb x = .quiet)
    (hf : ∀ t ∈ h.done, t.Follows)
    (hmore : rs.length ≠ q.len.toNat → ∀ k, k = ({ h with current := some (.read q (rs ++ [r]) obss) } :
      History idWidth).calls → Tracks k { h with current := some (.read q (rs ++ [r]) obss) } (reading q (rs ++ [r]))
        (Burst.posedge s i).bresp (ph.step i))
    (hend : rs.length = q.len.toNat → ph.step i = .idle ∧ (Txn.read q (rs ++ [r]) obss).Follows) :
    Kept k (h.note (i, wires s i)) ((reading q rs).step ρ (i, wires s i)).1 (Burst.posedge s i).bresp (ph.step i)
      (apbCalls (i, wires s i) ++ ((reading q rs).step ρ (i, wires s i)).2) (bTaken (Sample.cycle (i, wires s i))) := by
  have hrt : rTaken (Sample.cycle (i, wires s i)) = [r] := by
    rw [cycle_wires hr i]
    exact rTaken_some hrr hready
  obtain ⟨hwt, hbn, haw, har⟩ := read_wires hr hidle hw hb i
  obtain ⟨hev, hapb⟩ := events_quiet (i := i) hr hquiet
  have hmon : (reading q rs).step ρ (i, wires s i) = if rs.length = q.len.toNat then (.new, [.axiRd (rdTr q (rs ++ [r]))])
      else (reading q (rs ++ [r]), []) := by
    have hcap : wrWCapture ρ (reading q rs).d (Sample.cycle (i, wires s i)) = (newWr, false) := wrWCapture_none hwt hbn
    rw [AxiMon.step, hcap, wrAwCapture, haw, List.map_nil]
    simp only [Bool.false_eq_true, if_false]
    rw [wrBCapture_pass rfl (bTaken_none hbn)]
    simp only [reading, rdLoop, hrt, hlast]
    by_cases hn : rs.length = q.len.toNat
    · have hlen : (collected q rs).arlen.toNat = rs.length := hn.symm
      simp only [hlen, if_pos, hn, beq_self_eq_true]
      rw [report_read]
      rfl
    · have hlen : rs.length ≠ (collected q rs).arlen.toNat := hn
      have hbeq : (rs.length == q.len.toNat) = false := by simpa using hn
      rw [if_neg hlen, if_neg hn, hbeq]
      simp only [Bool.false_eq_true, if_false]
      rw [collected_concat, List.length_append]
      rfl
  rw [hapb, List.nil_append, hmon]
  by_cases hn : rs.length = q.len.toNat
  · obtain ⟨hidle', hfol⟩ := hend hn
    rw [note_read_last hcur (by simp [hrt, hlast, hn]), hev, hrt, List.append_nil, if_pos hn, hidle']
    exact kept_end hk hcur rfl rfl hf hfol rfl
  · have hbeq : (rs.length == q.len.toNat) = false := by simpa using hn
    rw [note_read hcur (by simp [hrt, hlast, hbeq]), hev, hrt, List.append_nil, if_neg hn]
    exact kept_on (.read q (rs ++ [r]) obss) [] hk hcur rfl (List.append_nil _).symm (by simp) hf (hmore hn)

private theorem kept_rapb {en : Bool} (hr : Burst.Rel s (.rapb q ds en)) (ht : Tracks k h m s.bresp (.rapb q ds en))
    (hf : ∀ t ∈ h.done, t.Follows) :
    Kept k (h.note (i, wires s i)) (m.step ρ (i, wires s i)).1 (Burst.posedge s i).bresp
      ((Burst.Phase.rapb q ds en).step i)
      (apbCalls (i, wires s i) ++ (m.step ρ (i, wires s i)).2) (bTaken (Sample.cycle (i, wires s i))) := by
  obtain ⟨obss', hev, hapb, hdone⟩ := events_drive (i := i) (k := q.readCtrl ds.length) hr (fun _ => rfl)
  obtain ⟨obss, hcur, hrep, hk, rfl⟩ := ht
  cases hgo : en && i.pready q.port with
  | false =>
    rw [hgo, if_neg Bool.false_ne_true] at hdone
    subst hdone
    refine kept_silent hr rfl rfl rfl (Or.inl rfl) hcur hk hev hapb (by simp) hf fun k hk => ?_
    have hstay : ∃ en', (Burst.Phase.rapb q ds en).step i = .rapb q ds en' := by
      cases en with
      | false => exact ⟨true, rfl⟩
      | true =>
        rw [Bool.true_and] at hgo
        exact ⟨true, by rw [Burst.Phase.step, hgo]; rfl⟩
    obtain ⟨en', hstay⟩ := hstay
    rw [hstay]
    exact ⟨obss, by simp, hrep, hk, rfl⟩
  | true =>
    rw [hgo, if_pos rfl] at hdone
    obtain ⟨obs, rfl, hobs⟩ := hdone
    obtain ⟨rfl, hp⟩ : en = true ∧ i.pready q.port = true := by simpa using hgo
    refine kept_silent hr rfl rfl rfl (Or.inl rfl) hcur hk hev hapb (by simp) hf fun k hk => ?_
    rw [Burst.Phase.step, if_pos hp]
    exact ⟨_, rfl, hrep.done hr.ok.1 hobs, hk, rfl⟩

private theorem returns_length (q : Req (contract idWidth)) (ds : List (ReadDone (contract idWidth))) :
    (q.returns ds).length = ds.length := by
  rw [Req.returns, List.length_mapIdx]

private theorem padding_length (q : Req (contract idWidth)) (n : Nat) : (q.padding n).length = n := by
  rw [Req.padding, List.length_map, List.length_range]

private theorem returns_concat (q : Req (contract idWidth)) (ds : List (ReadDone (contract idWidth)))
    (d : ReadDone (contract idWidth)) : q.returns (ds ++ [d]) = q.returns ds ++ [q.rBeat ds.length d] := by
  rw [Req.returns, List.mapIdx_concat]
  rfl

private theorem padding_succ (q : Req (contract idWidth)) (n : Nat) :
    q.padding (n + 1) = q.padding n ++ [q.errBeat n] := by
  rw [Req.padding, List.range_succ, List.map_append]
  rfl

private theorem kept_rbuf {b : Bool} (hr : Burst.Rel s (.rbuf q ds d b)) (ht : Tracks k h m s.bresp (.rbuf q ds d b))
    (hf : ∀ t ∈ h.done, t.Follows) :
    Kept k (h.note (i, wires s i)) (m.step ρ (i, wires s i)).1 (Burst.posedge s i).bresp
      ((Burst.Phase.rbuf q ds d b).step i)
      (apbCalls (i, wires s i) ++ (m.step ρ (i, wires s i)).2) (bTaken (Sample.cycle (i, wires s i))) := by
  obtain ⟨hev, hapb⟩ := events_quiet (i := i) hr (fun _ => rfl)
  obtain ⟨obss, hcur, hrep, hk, rfl⟩ := ht
  have hlen := returns_length q ds
  have hsilent : (b = false ∨ i.rready = false) → Kept k (h.note (i, wires s i))
      ((reading q (q.returns ds)).step ρ (i, wires s i)).1 (Burst.posedge s i).bresp
      ((Burst.Phase.rbuf q ds d b).step i) (apbCalls (i, wires s i) ++
        ((reading q (q.returns ds)).step ρ (i, wires s i)).2) (bTaken (Sample.cycle (i, wires s i))) := by
    intro hno
    have hrr : (Burst.Phase.rbuf q ds d b).r = none ∨ i.rready = false := by
      rcases hno with rfl | hno
      · exact Or.inl rfl
      · exact Or.inr hno
    refine kept_silent hr rfl rfl rfl hrr hcur hk hev hapb (by simp) hf fun k hk => ?_
    have hstay : ∃ b', (Burst.Phase.rbuf q ds d b).step i = .rbuf q ds d b' := by
      cases b with
      | false => exact ⟨true, rfl⟩
      | true =>
        have hno : i.rready = false := by simpa using hno
        exact ⟨true, by rw [Burst.Phase.step, hno]; rfl⟩
    obtain ⟨b', hstay⟩ := hstay
    rw [hstay]
    exact ⟨obss, by simp, hrep, hk, rfl⟩
  cases b with
  | false => exact hsilent (Or.inl rfl)
  | true =>
    cases hready : i.rready with
    | false => exact hsilent (Or.inr hready)
    | true =>
      refine kept_beat hr rfl rfl rfl rfl hready (by rw [hlen]; rfl) hcur hk (fun _ => rfl) hf ?_ ?_
      · intro hne k hk
        rw [hlen] at hne
        rw [Burst.Phase.step, if_pos hready, if_neg (by simpa using hne), ← returns_concat]
        exact ⟨obss, by rw [returns_concat], hrep, by rw [returns_concat]; exact hk, by rw [returns_concat]⟩
      · intro heq
        rw [hlen] at heq
        refine ⟨by rw [Burst.Phase.step, if_pos hready, if_pos (by simpa using heq)], ?_⟩
        rw [← returns_concat]
        exact follows_read hr.ok.1 (by rw [List.length_append, heq]; rfl) hrep

private theorem kept_rerr {n : Nat} {b : Bool} (hr : Burst.Rel s (.rerr q n b)) (ht : Tracks k h m s.bresp (.rerr q n b))
    (hf : ∀ t ∈ h.done, t.Follows) :
    Kept k (h.note (i, wires s i)) (m.step ρ (i, wires s i)).1 (Burst.posedge s i).bresp
      ((Burst.Phase.rerr q n b).step i)
      (apbCalls (i, wires s i) ++ (m.step ρ (i, wires s i)).2) (bTaken (Sample.cycle (i, wires s i))) := by
  obtain ⟨hev, hapb⟩ := events_quiet (i := i) hr (fun _ => rfl)
  obtain ⟨hcur, hk, rfl⟩ := ht
  have hlen := padding_length q n
  have hsilent : (b = false ∨ i.rready = false) → Kept k (h.note (i, wires s i))
      ((reading q (q.padding n)).step ρ (i, wires s i)).1 (Burst.posedge s i).bresp
      ((Burst.Phase.rerr q n b).step i) (apbCalls (i, wires s i) ++
        ((reading q (q.padding n)).step ρ (i, wires s i)).2) (bTaken (Sample.cycle (i, wires s i))) := by
    intro hno
    have hrr : (Burst.Phase.rerr q n b).r = none ∨ i.rready = false := by
      rcases hno with rfl | hno
      · exact Or.inl rfl
      · exact Or.inr hno
    refine kept_silent hr rfl rfl rfl hrr hcur hk hev hapb (by simp) hf fun k hk => ?_
    have hstay : ∃ b', (Burst.Phase.rerr q n b).step i = .rerr q n b' := by
      cases b with
      | false => exact ⟨true, rfl⟩
      | true =>
        have hno : i.rready = false := by simpa using hno
        exact ⟨true, by rw [Burst.Phase.step, hno]; rfl⟩
    obtain ⟨b', hstay⟩ := hstay
    rw [hstay]
    exact ⟨rfl, hk, rfl⟩
  cases b with
  | false => exact hsilent (Or.inl rfl)
  | true =>
    cases hready : i.rready with
    | false => exact hsilent (Or.inr hready)
    | true =>
      refine kept_beat hr rfl rfl rfl rfl hready (by rw [hlen]; rfl) hcur hk (fun _ => rfl) hf ?_ ?_
      · intro hne k hk
        rw [hlen] at hne
        rw [Burst.Phase.step, if_pos hready, if_neg (by simpa using hne), ← padding_succ]
        exact ⟨by rw [padding_succ], by rw [padding_succ]; exact hk, by rw [padding_succ]⟩
      · intro heq
        rw [hlen] at heq
        refine ⟨by rw [Burst.Phase.step, if_pos hready, if_pos (by simpa using heq)], ?_⟩
        rw [← padding_succ, heq]
        exact follows_rejected_read hr.ok.1

/-- One edge of the bridge and its monitors. -/
theorem kept_step (hr : Burst.Rel s ph) (ht : Tracks k h m s.bresp ph) (hf : ∀ t ∈ h.done, t.Follows) (ρ : Race)
    (i : In (contract idWidth)) :
    Kept k (h.note (i, wires s i)) (m.step ρ (i, wires s i)).1 (Burst.posedge s i).bresp (ph.step i)
      (apbCalls (i, wires s i) ++ (m.step ρ (i, wires s i)).2) (bTaken (Sample.cycle (i, wires s i))) := by
  cases ph with
  | idle => exact kept_idle hr ht hf
  | wdata q ws es => exact kept_wdata hr ht hf
  | wapb q ws w es en => exact kept_wapb hr ht hf
  | wresp q ws es b => exact kept_wresp hr ht hf
  | rfetch q ds =>
    obtain ⟨hev, hapb⟩ := events_quiet (i := i) hr (fun _ => rfl)
    obtain ⟨obss, hcur, hrep, hk, rfl⟩ := ht
    exact kept_silent hr rfl rfl rfl (Or.inl rfl) hcur hk hev hapb (by simp) hf fun k hk =>
      ⟨obss, by simp, hrep, hk, rfl⟩
  | rapb q ds en => exact kept_rapb hr ht hf
  | rbuf q ds d b => exact kept_rbuf hr ht hf
  | rerr q n b => exact kept_rerr hr ht hf

end

end

/-! ### Nothing is left out -/

section
variable {idWidth : Nat}

/-- What is seen on the channels, and the reported transfers. -/
@[ext]
structure Events (idWidth : Nat) where
  aw : List (Req (contract idWidth))
  ar : List (Req (contract idWidth))
  w : List (WBeat (contract idWidth))
  b : List (BBeat (contract idWidth))
  r : List (RBeat (contract idWidth))
  apb : List ApbTr

namespace Events

def none : Events idWidth := ⟨[], [], [], [], [], []⟩

def append (e f : Events idWidth) : Events idWidth :=
  ⟨e.aw ++ f.aw, e.ar ++ f.ar, e.w ++ f.w, e.b ++ f.b, e.r ++ f.r, e.apb ++ f.apb⟩

theorem append_none (e : Events idWidth) : e.append none = e := by
  simp [append, none]

theorem append_assoc (e f g : Events idWidth) : (e.append f).append g = e.append (f.append g) := by
  simp [append]

end Events

/-- The events of an edge. -/
def Sample.events (v : Sample (contract idWidth)) : Events idWidth :=
  ⟨awAccepted v.cycle, arAccepted v.cycle, wTaken v.cycle, bTaken v.cycle, rTaken v.cycle,
    apbEvent false v ++ apbEvent true v⟩

/-- All events of a trace. -/
def events (tr : List (Sample (contract idWidth))) : Events idWidth :=
  tr.foldl (fun e v => e.append v.events) .none

def txnEvents : Txn idWidth → Events idWidth
  | .write q ws b obss => ⟨[q], [], ws, [b], [], obss⟩
  | .read q rs obss => ⟨[], [q], [], [], rs, obss⟩

def Started.events : Started idWidth → Events idWidth
  | write q ws obss => ⟨[q], [], ws, [], [], obss⟩
  | read q rs obss => ⟨[], [q], [], [], rs, obss⟩

/-- The events of all transactions, one transaction after the other. -/
def History.events (h : History idWidth) : Events idWidth :=
  (h.current.toList.map Started.events).foldl Events.append ((h.done.map txnEvents).foldl Events.append .none)

theorem events_concat (tr : List (Sample (contract idWidth))) (v : Sample (contract idWidth)) :
    events (tr ++ [v]) = (events tr).append v.events := by
  rw [events, List.foldl_append]
  rfl

section
variable {h : History idWidth}

theorem events_closed (t : Txn idWidth) : (⟨h.done ++ [t], none⟩ : History idWidth).events =
    ((h.done.map txnEvents).foldl Events.append .none).append (txnEvents t) := by
  rw [History.events, List.map_append, List.foldl_append]
  rfl

theorem events_of_some {t : Started idWidth} (hc : h.current = some t) :
    h.events = ((h.done.map txnEvents).foldl Events.append .none).append t.events := by
  rw [History.events, hc]
  rfl

theorem events_of_none (hc : h.current = none) : h.events = (h.done.map txnEvents).foldl Events.append .none := by
  rw [History.events, hc]
  rfl

/-- A transaction that goes on takes the events of an edge, and so does one that ends. -/
theorem events_grown {t t' : Started idWidth} {e : Events idWidth} (hc : h.current = some t)
    (ht : t'.events = t.events.append e) :
    ({ h with current := some t' } : History idWidth).events = h.events.append e := by
  rw [events_of_some rfl, events_of_some hc, ht, Events.append_assoc]

theorem events_ended {t : Started idWidth} {t' : Txn idWidth} {e : Events idWidth} (hc : h.current = some t)
    (ht : txnEvents t' = t.events.append e) :
    (⟨h.done ++ [t'], none⟩ : History idWidth).events = h.events.append e := by
  rw [events_closed, events_of_some hc, ht, Events.append_assoc]

end

section
variable {k : List Call} {h : History idWidth} {m : AxiMon} {s : Burst.State (contract idWidth)}
  {ph : Burst.Phase (contract idWidth)} {bresp : BitVec 2} {i : In (contract idWidth)}

private theorem note_write_events {q : Req (contract idWidth)} {ws : List (WBeat (contract idWidth))} {obss : List ApbTr}
    {v : Sample (contract idWidth)} (hc : h.current = some (.write q ws obss)) (haw : awAccepted v.cycle = [])
    (har : arAccepted v.cycle = []) (hr : rTaken v.cycle = []) : (h.note v).events = h.events.append v.events := by
  cases hb : bTaken v.cycle with
  | nil =>
    rw [note_write hc hb]
    exact events_grown hc (by simp [Started.events, Sample.events, Events.append, haw, har, hb, hr])
  | cons b bs =>
    have hone : bs = [] := by
      rw [bTaken] at hb
      cases hv : v.cycle.2.b <;> cases hready : v.cycle.1.bready <;> simp_all
    subst hone
    rw [note_write_last hc hb]
    exact events_ended hc (by simp [Started.events, txnEvents, Sample.events, Events.append, haw, har, hb, hr])

private theorem note_read_events {q : Req (contract idWidth)} {rs : List (RBeat (contract idWidth))} {obss : List ApbTr}
    {v : Sample (contract idWidth)} (hc : h.current = some (.read q rs obss)) (haw : awAccepted v.cycle = [])
    (har : arAccepted v.cycle = []) (hw : wTaken v.cycle = []) (hb : bTaken v.cycle = []) :
    (h.note v).events = h.events.append v.events := by
  cases hlast : (rTaken v.cycle).any (·.rlast) with
  | false =>
    rw [note_read hc hlast]
    exact events_grown hc (by simp [Started.events, Sample.events, Events.append, haw, har, hw, hb])
  | true =>
    rw [note_read_last hc hlast]
    exact events_ended hc (by simp [Started.events, txnEvents, Sample.events, Events.append, haw, har, hw, hb])

private theorem note_idle_events (hr : Burst.Rel s .idle) (hc : h.current = none) :
    (h.note (i, wires s i)).events = h.events.append (Sample.events (i, wires s i)) := by
  have hcyc := cycle_wires hr i
  obtain ⟨hev, -⟩ := events_quiet (i := i) hr (fun _ => rfl)
  have hw : wTaken (Sample.cycle (i, wires s i)) = [] := by rw [hcyc]; exact Burst.wTaken_idle i
  have hb : bTaken (Sample.cycle (i, wires s i)) = [] := by rw [hcyc]; exact bTaken_none rfl
  have hrt : rTaken (Sample.cycle (i, wires s i)) = [] := by rw [hcyc]; exact rTaken_none rfl
  have haw : awTaken (Sample.cycle (i, wires s i)) = (i.awvalid && !i.arvalid) := by rw [hcyc]; rfl
  have har : arTaken (Sample.cycle (i, wires s i)) = (i.arvalid && !i.awvalid) := by rw [hcyc]; rfl
  have hnote : h.note (i, wires s i) = { h with
      current := if awTaken (Sample.cycle (i, wires s i)) then some (.write i.awReq [] [])
        else if arTaken (Sample.cycle (i, wires s i)) then some (.read i.arReq [] []) else none } := by
    rw [History.note, hc]
  rw [hnote, Sample.events, hev, hw, hb, hrt, awAccepted, arAccepted, haw, har]
  cases h1 : i.awvalid && !i.arvalid with
  | true =>
    have hno : (i.arvalid && !i.awvalid) = false := by
      obtain ⟨-, hv⟩ : i.awvalid = true ∧ i.arvalid = false := by simpa using h1
      rw [hv, Bool.false_and]
    rw [hno, events_of_none hc]
    exact events_of_some (h := ⟨h.done, some (.write i.awReq [] [])⟩) rfl
  | false =>
    cases h2 : i.arvalid && !i.awvalid with
    | true =>
      rw [events_of_none hc]
      exact events_of_some (h := ⟨h.done, some (.read i.arReq [] [])⟩) rfl
    | false =>
      rw [events_of_none hc]
      exact (events_of_none rfl).trans (Events.append_none _).symm

/-- The transaction that is served takes all events of an edge. -/
theorem note_events (hr : Burst.Rel s ph) (ht : Tracks k h m bresp ph) (i : In (contract idWidth)) :
    (h.note (i, wires s i)).events = h.events.append (Sample.events (i, wires s i)) := by
  have hcyc := cycle_wires hr i
  have hreq : ph.isIdle = false →
      awAccepted (Sample.cycle (i, wires s i)) = [] ∧ arAccepted (Sample.cycle (i, wires s i)) = [] := by
    intro hidle
    rw [hcyc, awAccepted, arAccepted, Burst.awTaken_busy hidle, Burst.arTaken_busy hidle]
    exact ⟨rfl, rfl⟩
  have hread : ph.wready = false → ph.b = none →
      wTaken (Sample.cycle (i, wires s i)) = [] ∧ bTaken (Sample.cycle (i, wires s i)) = [] := by
    intro hw hb
    rw [hcyc, Burst.wTaken_out, hw, Bool.and_false]
    exact ⟨rfl, bTaken_none hb⟩
  have hwrite : ph.r = none → rTaken (Sample.cycle (i, wires s i)) = [] := by
    intro hrr
    rw [hcyc]
    exact rTaken_none hrr
  cases ph with
  | idle => exact note_idle_events hr ht.1
  | wdata q ws es =>
    obtain ⟨obss, hc, -⟩ := ht
    exact note_write_events hc (hreq rfl).1 (hreq rfl).2 (hwrite rfl)
  | wapb q ws w es en =>
    obtain ⟨obss, hc, -⟩ := ht
    exact note_write_events hc (hreq rfl).1 (hreq rfl).2 (hwrite rfl)
  | wresp q ws es b =>
    obtain ⟨obss, ended, hc, -⟩ := ht
    exact note_write_events hc (hreq rfl).1 (hreq rfl).2 (hwrite rfl)
  | rfetch q ds =>
    obtain ⟨obss, hc, -⟩ := ht
    exact note_read_events hc (hreq rfl).1 (hreq rfl).2 (hread rfl rfl).1 (hread rfl rfl).2
  | rapb q ds en =>
    obtain ⟨obss, hc, -⟩ := ht
    exact note_read_events hc (hreq rfl).1 (hreq rfl).2 (hread rfl rfl).1 (hread rfl rfl).2
  | rbuf q ds d b =>
    obtain ⟨obss, hc, -⟩ := ht
    exact note_read_events hc (hreq rfl).1 (hreq rfl).2 (hread rfl rfl).1 (hread rfl rfl).2
  | rerr q n b =>
    exact note_read_events ht.1 (hreq rfl).1 (hreq rfl).2 (hread rfl rfl).1 (hread rfl rfl).2

end

/-! ### Runs -/

/-- The bridge and its monitors after the samples of a trace. -/
structure Exact (tr : List ((In (contract idWidth) × Race) × (Wires (contract idWidth) × List Call)))
    (s : Burst.State (contract idWidth) × AxiMon) : Prop where
  phase : ∃ ph, Burst.Rel s.1 ph ∧ Tracks (delivered tr) (history (tr.map sampled)) s.2 s.1.bresp ph
  follows : ∀ t ∈ (history (tr.map sampled)).done, t.Follows
  events : (history (tr.map sampled)).events = Monitors.events (tr.map sampled)
  single : ∀ c ∈ tr, c.2.2.length ≤ 1
  prompt : ∀ c ∈ tr.getLast?, bTaken (sampled c).cycle = [] → delivered tr = (history (tr.map sampled)).calls

theorem exact_initial {s₀ : Burst.State (contract idWidth)} (h0 : Burst.IsReset s₀) : Exact [] (s₀, .new) where
  phase := ⟨.idle, Burst.rel_reset h0, rfl, Or.inl ⟨rfl, rfl⟩⟩
  follows := by simp [history, History.empty]
  events := rfl
  single := by simp
  prompt := by simp

theorem exact_step {tr : List ((In (contract idWidth) × Race) × (Wires (contract idWidth) × List Call))}
    {s : Burst.State (contract idWidth) × AxiMon} (h : Exact tr s) (i : In (contract idWidth) × Race) :
    Exact (tr ++ [(i, (monitored _).out s i)]) ((monitored _).step s i) := by
  obtain ⟨ph, hr, ht⟩ := h.phase
  have hkept := kept_step hr ht h.follows i.2 i.1
  have hmap : (tr ++ [(i, (monitored _).out s i)]).map sampled = tr.map sampled ++ [(i.1, wires s.1 i.1)] := by
    rw [List.map_append]
    rfl
  have hdel : delivered (tr ++ [(i, (monitored _).out s i)]) =
      delivered tr ++ (apbCalls (i.1, wires s.1 i.1) ++ (s.2.step i.2 (i.1, wires s.1 i.1)).2) := by
    rw [delivered, List.flatMap_append, List.flatMap_singleton]
    rfl
  constructor
  · rw [hmap, hdel, history_concat]
    exact ⟨_, Burst.rel_posedge hr i.1, hkept.tracks⟩
  · rw [hmap, history_concat]
    exact hkept.follows
  · rw [hmap, history_concat, events_concat, note_events hr ht, h.events]
  · intro c hc
    rcases List.mem_append.1 hc with hc | hc
    · exact h.single c hc
    · rw [List.mem_singleton.1 hc]
      exact hkept.single
  · intro c hc hb
    rw [List.getLast?_concat, Option.mem_some_iff] at hc
    subst hc
    rw [hmap, hdel, history_concat]
    exact hkept.prompt hb

theorem exact_run {s₀ : Burst.State (contract idWidth)} (h0 : Burst.IsReset s₀)
    (is : List (In (contract idWidth) × Race)) :
    Exact ((monitored _).trace (s₀, .new) is) ((monitored _).run (s₀, .new) is) :=
  Machine.track (I := Exact) (fun _ _ i h _ => exact_step h i) (exact_initial h0) (fun _ _ => trivial)

/-- The reports that are out are those of all transactions, but for a write that has just ended. -/
theorem Exact.late {tr : List ((In (contract idWidth) × Race) × (Wires (contract idWidth) × List Call))}
    {s : Burst.State (contract idWidth) × AxiMon} (h : Exact tr s) :
    delivered tr = (history (tr.map sampled)).calls ∨
      ∃ t, (history (tr.map sampled)).done.getLast? = some t ∧ (history (tr.map sampled)).current = none ∧
        delivered tr ++ [t.axi] = (history (tr.map sampled)).calls := by
  obtain ⟨ph, -, ht⟩ := h.phase
  cases ph with
  | idle =>
    obtain ⟨hc, ⟨hk, -⟩ | ⟨q, ws, b, obss, hlast, hk, -⟩⟩ := ht
    · exact Or.inl hk
    · exact Or.inr ⟨_, hlast, hc, hk⟩
  | wdata | wapb | rfetch | rapb | rbuf =>
    obtain ⟨obss, -, -, hk, -⟩ := ht
    exact Or.inl hk
  | wresp =>
    obtain ⟨obss, ended, -, -, hk, -⟩ := ht
    exact Or.inl hk
  | rerr => exact Or.inl ht.2.1

/-- In every run from reset, whatever the races: the transactions are all that is seen on the channels, cut at the
responses; those that are over follow the design contract; the monitors deliver them in order, at most one call at an
edge, each transfer at its edge and each transaction at its last handshake, or, for a write, at the edge after. -/
theorem monitors_exact {s₀ : Burst.State (contract idWidth)} (h0 : Burst.IsReset s₀)
    (is : List (In (contract idWidth) × Race)) :
    let tr := (monitored (contract idWidth)).trace (s₀, .new) is
    let h := history (tr.map sampled)
    h.events = events (tr.map sampled) ∧ (∀ t ∈ h.done, t.Follows) ∧ (∀ c ∈ tr, c.2.2.length ≤ 1) ∧
      (delivered tr = h.calls ∨
        ∃ t, h.done.getLast? = some t ∧ h.current = none ∧ delivered tr ++ [t.axi] = h.calls) ∧
      ∀ c ∈ tr.getLast?, bTaken (sampled c).cycle = [] → delivered tr = h.calls :=
  have h := exact_run h0 is
  ⟨h.events, h.follows, h.single, h.late, h.prompt⟩

/-- A write of two beats, none of which has `WLAST`: its report waits for the edge after the B handshake, if
`wr_b_capture` runs first. -/
theorem monitors_exact_no_wlast :
    let r := In.ready (contract 4)
    let q : Req (contract 4) := ⟨5, 0x1000, 1, 0b011, 0b01, 0⟩
    let is := [r.withAw q, r.withW ⟨0x11, 0xff, false⟩, r, r, r.withW ⟨0x22, 0xff, false⟩, r, r, r, r]
    let tr := (monitored _).trace (Burst.State.zero _, .new) (is.map (·, ⟨false, false, false, false⟩))
    ∃ t, (history (tr.map sampled)).done.getLast? = some t ∧ (history (tr.map sampled)).current = none ∧
      delivered tr ++ [t.axi] = (history (tr.map sampled)).calls :=
  (monitors_exact (Burst.isReset_zero (contract 4)) _).2.2.2.1.resolve_left (by decide +kernel)

end

end Monitors

end AxiApb
