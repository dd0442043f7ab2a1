import AxiApb.ApbProtocol
import AxiApb.BurstSerial
import AxiApb.SimplePairing

/-!
# The byte strobes of reads

An APB4 master drives `PSTRB` low in a read transfer.  In both bridges `PSTRBx` is assigned at the launch of a write
only and has no reset value, so that a read shows the strobes of the last write to its port, and what the register
powered up with if there was none (`read_strobes`).
-/

namespace AxiApb

open Clocked

variable {P : Params}

/-- A port in a read transfer has its strobes low. -/
def ReadsLow (p : Bool → Port P) : Prop := ∀ x, (p x).psel = true → (p x).pwrite = false → (p x).pstrb = 0

instance (p : Bool → Port P) : Decidable (ReadsLow p) :=
  inferInstanceAs (Decidable (∀ x, (p x).psel = true → (p x).pwrite = false → _))

/-- The strobes of the last of the write beats `bs` that goes to port `x`, `d` if there is none. -/
def lastStrb (x : Bool) (d : Strb P) (bs : List (Req P × WBeat P)) : Strb P :=
  bs.foldl (fun v b => if b.1.port = x then b.2.wstrb else v) d

theorem lastStrb_concat (x : Bool) (d : Strb P) (bs : List (Req P × WBeat P)) (b : Req P × WBeat P) :
    lastStrb x d (bs ++ [b]) = if b.1.port = x then b.2.wstrb else lastStrb x d bs := by
  rw [lastStrb, List.foldl_append]
  rfl

private theorem readsLow_iff {p : Bool → Port P} {v : Bool → Strb P}
    (h : ∀ x, (p x).psel = true → (p x).pwrite = false → (p x).pstrb = v x) :
    ReadsLow p ↔ ∀ x, (p x).psel = true → (p x).pwrite = false → v x = 0 := by
  refine forall_congr' fun x => forall_congr' fun hs => forall_congr' fun hw => ?_
  rw [h x hs hw]

/-! ### The burst bridge -/

namespace Burst

/-- The W beat that a cycle adds to the transaction `v`, if it goes on to a port. -/
def beatsOf (v : Option (Served P)) (c : Cycle P) : List (Req P × WBeat P) :=
  match v with
  | some u => if u.req.Legal then (wTaken c).map (u.req, ·) else []
  | none => []

/-- The accepted W beats of all writes that are not rejected, each with its request. -/
def servedBeats (tr : List (Cycle P)) : List (Req P × WBeat P) :=
  (tr.foldl (fun v c => (flightStep v.1 c, v.2 ++ beatsOf v.1 c)) (none, [])).2

section
variable {tr : List (Cycle P)} {s : State P} {ph : Phase P} {i : In P} {x : Bool}

private theorem inFlight_concat (tr : List (Cycle P)) (c : Cycle P) :
    inFlight (tr ++ [c]) = flightStep (inFlight tr) c := by
  rw [inFlight, List.foldl_append]
  rfl

private theorem servedBeats_concat (tr : List (Cycle P)) (c : Cycle P) :
    servedBeats (tr ++ [c]) = servedBeats tr ++ beatsOf (inFlight tr) c := by
  have hfst : ∀ tr : List (Cycle P),
      (tr.foldl (fun v c => (flightStep v.1 c, v.2 ++ beatsOf v.1 c)) (none, [])).1 = inFlight tr := by
    intro tr
    induction tr using List.reverseRecOn with
    | nil => rfl
    | append_singleton tr c ih =>
      rw [inFlight_concat, ← ih, List.foldl_append]
      rfl
  rw [servedBeats, List.foldl_append, ← hfst]
  rfl

private theorem pstrb_releasePorts (a : ApbRegs P) : ((releasePorts a).port x).pstrb = (a.port x).pstrb := by
  rw [port_releasePorts]
  rfl

private theorem pstrb_onSelected {f : Port P → Port P} (hf : ∀ p, (f p).pstrb = p.pstrb) (a : ApbRegs P) :
    ((onSelected s f a).port x).pstrb = (a.port x).pstrb := by
  rw [port_onSelected]
  split
  · exact hf _
  · rfl

/-- An accepted beat of a write that is not rejected is launched at once. -/
private theorem pstrb_launch (hw : wHandshake s i = true) (herr : s.txnDecerr = false) :
    ((posedge s i).port x).pstrb = if x = s.axiSelApb1 then i.wstrb else (s.port x).pstrb := by
  have hready := hw
  rw [wHandshake, wready, herr] at hready
  simp only [Bool.and_eq_true, Bool.false_eq_true, if_false] at hready
  split at hready
  · rename_i hopen
    obtain ⟨⟨⟨hact, hwr⟩, -⟩, hlt⟩ := hopen
    have hidle : s.apbState = .idle := by simpa using hready.2
    show ((apbBlock s i).port x).pstrb = _
    simp only [apbBlock, hidle, hact, herr, hlt, hwr, hw, Bool.not_false, Bool.and_self, if_true]
    show ((onSelected s (launchWrite s i) (releasePorts s.toApbRegs)).port x).pstrb = _
    rw [port_onSelected, port_releasePorts]
    split <;> rfl
  · cases hready.2

/-- Nothing else assigns `PSTRBx`. -/
private theorem pstrb_keep (h : wHandshake s i = false ∨ s.txnDecerr = true) :
    ((posedge s i).port x).pstrb = (s.port x).pstrb := by
  show ((apbBlock s i).port x).pstrb = _
  unfold apbBlock
  cases ha : s.apbState with
  | idle =>
    dsimp only
    split
    · rename_i hact
      simp only [Bool.and_eq_true, Bool.not_eq_true'] at hact
      have hw : wHandshake s i = false := by
        rcases h with h | h
        · exact h
        · rw [hact.1.2] at h
          cases h
      split
      · rw [hw]
        exact pstrb_releasePorts _
      · split
        · show ((onSelected s (launchRead s) (releasePorts s.toApbRegs)).port x).pstrb = _
          rw [pstrb_onSelected (f := launchRead s) (fun _ => rfl), pstrb_releasePorts]
        · exact pstrb_releasePorts _
    · exact pstrb_releasePorts _
  | setup =>
    show ((onSelected s (fun p => { p with penable := true }) s.toApbRegs).port x).pstrb = _
    exact pstrb_onSelected (f := fun p => { p with penable := true }) (fun _ => rfl) _
  | access =>
    dsimp only
    split
    · exact pstrb_releasePorts _
    · rfl
  | unused => rfl

/-- What a run keeps: `PSTRBx` holds the strobes of the last W beat for port `x`. -/
private structure Strobed (d : Bool → Strb P) (tr : List (Cycle P)) (s : State P) (ph : Phase P) : Prop where
  rel : Rel s ph
  served : inFlight tr = ph.served
  strb : ∀ x, (s.port x).pstrb = lastStrb x (d x) (servedBeats tr)

private theorem strobed_step {d : Bool → Strb P} (h : Strobed d tr s ph) (i : In P) :
    Strobed d (tr ++ [(i, out s i)]) (posedge s i) (ph.step i) where
  rel := rel_posedge h.rel i
  served := by rw [inFlight_concat, h.served, out_rel h.rel, served_step]
  strb x := by
    have hw := wHandshake_rel h.rel i
    have ht := h.rel.txn
    rw [servedBeats_concat, h.served, out_rel h.rel]
    have hnone : ∀ u : Option (Served P), ph.wready = false → beatsOf u (i, ph.out i) = [] := by
      intro u hr
      cases u with
      | none => rfl
      | some u => simp [beatsOf, wTaken_out, hr]
    cases ph with
    | wdata q ws es =>
      have herr : s.txnDecerr = !decide q.Legal := ht.decerr
      rw [Phase.wready, Bool.and_true] at hw
      rw [Phase.served, beatsOf, wTaken_out, Phase.wready, Bool.and_true]
      by_cases hq : q.Legal
      · rw [decide_eq_true hq] at herr
        rw [if_pos hq]
        cases hv : i.wvalid with
        | true =>
          rw [hv] at hw
          rw [pstrb_launch hw herr, if_pos rfl, List.map_singleton, lastStrb_concat, ← h.strb, ht.sel]
          simp only [eq_comm]
          rfl
        | false =>
          rw [hv] at hw
          rw [pstrb_keep (Or.inl hw), h.strb, if_neg Bool.false_ne_true, List.map_nil, List.append_nil]
      · rw [decide_eq_false hq] at herr
        rw [pstrb_keep (Or.inr herr), h.strb, if_neg hq, List.append_nil]
    | idle | wapb | wresp | rfetch | rapb | rbuf | rerr =>
      have hno : wHandshake s i = false := hw.trans (Bool.and_false _)
      rw [pstrb_keep (Or.inl hno), h.strb, hnone _ rfl, List.append_nil]

private theorem strobed_run {s₀ : State P} (h0 : IsReset s₀) (is : List (In P)) :
    ∃ ph, Strobed (fun x => (s₀.port x).pstrb) ((bridge P).trace s₀ is) ((bridge P).run s₀ is) ph := by
  have hinit : ∃ ph, Strobed (fun x => (s₀.port x).pstrb) [] s₀ ph := ⟨_, rel_reset h0, rfl, fun _ => rfl⟩
  exact Machine.track (M := bridge P) (I := fun tr s => ∃ ph, Strobed _ tr s ph)
    (fun _ _ i ⟨ph, h⟩ _ => ⟨ph.step i, strobed_step h i⟩) hinit (fun _ _ => trivial)

end

end Burst

/-! ### The single-beat bridge -/

namespace Simple

/-- The accepted single-beat writes, each with its W beat: the bridge pairs the next AW with the next W beat. -/
def servedBeats (tr : List (Cycle P)) : List (Req P × WBeat P) :=
  ((awReqs tr).zip (wBeats tr)).filter fun b => b.1.Single

/-- The halves of a write that are held. -/
def Phase.aw : Phase P → Option (Req P)
  | idle aw _ => aw
  | err q _ => some q
  | _ => none

def Phase.w : Phase P → Option (WBeat P)
  | idle _ w => w
  | err _ w => w
  | _ => none

section
variable {tr : List (Cycle P)} {s : State P} {ph : Phase P} {i : In P} {x : Bool}

private theorem pstrb_setPort {f : Port P → Port P} (hf : ∀ p, (f p).pstrb = p.pstrb) (t : State P) (y : Bool) :
    ((t.setPort y f).port x).pstrb = (t.port x).pstrb := by
  rw [port_setPort]
  split
  · exact hf _
  · rfl

private theorem port_respDone (s : State P) (i : In P) (t : State P) : (respDone s i t).port = t.port := by
  unfold respDone
  cases s.bvalid && i.bready <;> cases s.rvalid && i.rready <;> rfl

private theorem port_idleW (s : State P) (i : In P) (t : State P) : (idleW s i (idleAw s i t)).port = t.port := by
  have haw : (idleAw s i t).port = t.port := by
    unfold idleAw
    cases awHandshake s i <;> cases paramErr P i.awlen i.awsize <;> rfl
  rw [← haw]
  unfold idleW
  cases wHandshake s i <;> rfl

private theorem pstrb_idleAr (i : In P) (t : State P) : ((idleAr i t).port x).pstrb = (t.port x).pstrb := by
  unfold idleAr
  dsimp only
  split
  · rfl
  · exact pstrb_setPort (f := launchRead i) (fun _ => rfl) _ _

/-- A write is launched when both of its halves are held. -/
private theorem pstrb_launch (hst : s.state = .idle) (haw : s.awPending = true) (hw : s.wPending = true) :
    ((posedge s i).port x).pstrb = if x = s.selApb1 then s.wstrbReg else (s.port x).pstrb := by
  have hstep : (posedge s i).port =
      ((idleW s i (idleAw s i (respDone s i s))).setPort s.selApb1 (launchWrite s)).port := by
    simp only [posedge, hst, stIdle, haw, hw, Bool.and_self, if_true, idleWrite]
    rfl
  rw [hstep, port_setPort, port_idleW, port_respDone]
  split <;> rfl

/-- Nothing else assigns `PSTRBx`. -/
private theorem pstrb_keep (h : ¬ (s.state = .idle ∧ s.awPending = true ∧ s.wPending = true)) :
    ((posedge s i).port x).pstrb = (s.port x).pstrb := by
  have hbase : ∀ y, (respDone s i s).port y = s.port y := fun y => by rw [port_respDone]
  unfold posedge
  cases hst : s.state with
  | idle =>
    have hpend : (s.awPending && s.wPending) = false := by
      rw [Bool.eq_false_iff]
      intro hp
      rw [Bool.and_eq_true] at hp
      exact h ⟨hst, hp⟩
    dsimp only
    rw [stIdle, hpend, if_neg Bool.false_ne_true]
    split
    · rw [pstrb_idleAr, port_idleW, hbase]
    · rw [port_idleW, hbase]
  | writeApb =>
    dsimp only [stWriteApb]
    split
    · rw [pstrb_setPort (f := fun p => { p with penable := true }) (fun _ => rfl), hbase]
    · split
      · show (((respDone s i s).setPort s.selApb1 Port.release).port x).pstrb = _
        rw [pstrb_setPort (f := Port.release) (fun _ => rfl), hbase]
      · rw [hbase]
  | readApb =>
    dsimp only [stReadApb]
    split
    · rw [pstrb_setPort (f := fun p => { p with penable := true }) (fun _ => rfl), hbase]
    · split
      · show (((respDone s i s).setPort s.selApb1 Port.release).port x).pstrb = _
        rw [pstrb_setPort (f := Port.release) (fun _ => rfl), hbase]
      · rw [hbase]
  | errResp =>
    dsimp only [stErrResp]
    split
    · exact congrArg Port.pstrb (hbase x)
    · exact congrArg Port.pstrb (hbase x)
  | writeResp | readResp =>
    dsimp only
    split
    · exact congrArg Port.pstrb (hbase x)
    · exact congrArg Port.pstrb (hbase x)
  | unused => exact congrArg Port.pstrb (hbase x)

private theorem accepted_busy (ph : Phase P) (h : ph.isIdle = false) (i : In P) :
    awAccepted (i, ph.out i) = [] ∧ wTaken (i, ph.out i) = [] := by
  rw [awAccepted_out, wTaken_out, h]
  simp

/-- A write whose two halves are held is passed on or rejected, and nothing is accepted. -/
private theorem halves_close (haw : ph.aw.isSome = true) (hw : ph.w.isSome = true) (i : In P) :
    awAccepted (i, ph.out i) = [] ∧ wTaken (i, ph.out i) = [] ∧ (ph.step i).aw = none ∧ (ph.step i).w = none := by
  rw [awAccepted_out, wTaken_out]
  cases ph with
  | idle aw w =>
    obtain ⟨q, rfl⟩ := Option.isSome_iff_exists.1 haw
    obtain ⟨v, rfl⟩ := Option.isSome_iff_exists.1 hw
    refine ⟨?_, ?_, rfl, rfl⟩
    · simp [Phase.awHeld]
    · simp [Phase.wHeld]
  | err q w =>
    obtain ⟨v, rfl⟩ := Option.isSome_iff_exists.1 hw
    refine ⟨?_, ?_, rfl, rfl⟩
    · simp [Phase.awHeld]
    · simp [Phase.wHeld]
  | wapb | wresp | rapb | rresp => cases haw

/-- Otherwise the halves that are held are those accepted so far. -/
private theorem halves_push (h : ¬ (ph.aw.isSome = true ∧ ph.w.isSome = true)) (i : In P) :
    (ph.step i).aw.toList = ph.aw.toList ++ awAccepted (i, ph.out i) ∧
      (ph.step i).w.toList = ph.w.toList ++ wTaken (i, ph.out i) := by
  cases ph with
  | idle aw w =>
    show _ ∧ _ = w.toList ++ _
    rw [wTaken_idle]
    cases aw with
    | some q =>
      cases w with
      | some v => exact absurd ⟨rfl, rfl⟩ h
      | none =>
        refine ⟨?_, rfl⟩
        rw [awAccepted_out, Phase.awHeld, Option.isSome_some]
        simp [Phase.step, Phase.aw]
    | none =>
      have hacc : awAccepted (i, (Phase.idle none w).out i) = if i.awvalid && !i.arvalid then [i.awReq] else [] := by
        rw [awAccepted_out]
        rfl
      rw [hacc, Phase.step, Phase.idleStep]
      cases hv : i.awvalid && !i.arvalid with
      | true =>
        rw [if_pos rfl, if_pos rfl, Phase.startWrite]
        split <;> exact ⟨rfl, rfl⟩
      | false =>
        rw [if_neg Bool.false_ne_true, if_neg Bool.false_ne_true]
        split
        · rename_i hread
          simp only [Bool.and_eq_true, Option.isNone_iff_eq_none, Bool.not_eq_true'] at hread
          rw [Phase.startRead, Phase.takeW, hread.1, hread.2.2]
          split <;> exact ⟨rfl, rfl⟩
        · exact ⟨rfl, rfl⟩
  | err q w =>
    cases w with
    | some v => exact absurd ⟨rfl, rfl⟩ h
    | none =>
      obtain ⟨haw, hw⟩ := accepted_busy (.err q none) rfl i
      rw [haw, hw]
      exact ⟨rfl, rfl⟩
  | wapb q w en =>
    obtain ⟨haw, hw⟩ := accepted_busy (.wapb q w en) rfl i
    rw [haw, hw]
    cases en with
    | false => exact ⟨rfl, rfl⟩
    | true => rw [Phase.step]; split <;> exact ⟨rfl, rfl⟩
  | rapb q en =>
    obtain ⟨haw, hw⟩ := accepted_busy (.rapb q en) rfl i
    rw [haw, hw]
    cases en with
    | false => exact ⟨rfl, rfl⟩
    | true => rw [Phase.step]; split <;> exact ⟨rfl, rfl⟩
  | wresp b =>
    obtain ⟨haw, hw⟩ := accepted_busy (.wresp b) rfl i
    rw [haw, hw]
    cases b with
    | none => exact ⟨rfl, rfl⟩
    | some v => rw [Phase.step]; split <;> exact ⟨rfl, rfl⟩
  | rresp r =>
    obtain ⟨haw, hw⟩ := accepted_busy (.rresp r) rfl i
    rw [haw, hw]
    cases r with
    | none => exact ⟨rfl, rfl⟩
    | some v => rw [Phase.step]; split <;> exact ⟨rfl, rfl⟩

/-- What a run keeps: `qs` and `ws` are the pairs done with, and `PSTRBx` holds the strobes of the last one for port
`x`. -/
private structure Strobed (d : Bool → Strb P) (tr : List (Cycle P)) (s : State P) (ph : Phase P)
    (qs : List (Req P)) (ws : List (WBeat P)) : Prop where
  rel : Rel s ph
  len : qs.length = ws.length
  aw : awReqs tr = qs ++ ph.aw.toList
  w : wBeats tr = ws ++ ph.w.toList
  strb : ∀ x, (s.port x).pstrb = lastStrb x (d x) ((qs.zip ws).filter fun b => b.1.Single)

private theorem strobed_step {d : Bool → Strb P} {qs : List (Req P)} {ws : List (WBeat P)}
    (h : Strobed d tr s ph qs ws) (i : In P) :
    ∃ qs' ws', Strobed d (tr ++ [(i, out s i)]) (posedge s i) (ph.step i) qs' ws' := by
  have hr := h.rel
  have hnext := rel_posedge hr i
  by_cases hboth : ph.aw.isSome = true ∧ ph.w.isSome = true
  · obtain ⟨hacc, htaken, hno, hno'⟩ := halves_close hboth.1 hboth.2 i
    obtain ⟨q, hq⟩ := Option.isSome_iff_exists.1 hboth.1
    obtain ⟨v, hv⟩ := Option.isSome_iff_exists.1 hboth.2
    refine ⟨qs ++ [q], ws ++ [v], hnext, ?_, ?_, ?_, fun x => ?_⟩
    · rw [List.length_append, List.length_append, h.len]
      rfl
    · rw [awReqs_concat, h.aw, out_rel hr, hacc, hno, hq]
      simp
    · rw [wBeats_concat, h.w, out_rel hr, htaken, hno', hv]
      simp
    · rw [List.zip_append h.len, List.filter_append]
      cases ph with
      | idle aw w =>
        cases hq
        cases hv
        have hs : q.Single := hr.ok q rfl
        have hl := hr.loads
        rw [pstrb_launch hr.code hr.aw hr.w, h.strb, (hl.2 v rfl).2, (hl.1 q rfl).sel]
        simp [lastStrb_concat, hs, eq_comm]
      | err q' w =>
        cases hq
        cases hv
        have hs : ¬ q.Single := hr.ok
        rw [pstrb_keep (fun hc => by rw [hr.code] at hc; cases hc.1), h.strb]
        simp [hs]
      | wapb | wresp | rapb | rresp => cases hq
  · obtain ⟨haw, hw⟩ := halves_push hboth i
    refine ⟨qs, ws, hnext, h.len, ?_, ?_, fun x => ?_⟩
    · rw [awReqs_concat, h.aw, out_rel hr, haw, List.append_assoc]
    · rw [wBeats_concat, h.w, out_rel hr, hw, List.append_assoc]
    · rw [pstrb_keep, h.strb]
      rintro ⟨hst, hpa, hpw⟩
      rw [hr.code] at hst
      rw [hr.aw] at hpa
      rw [hr.w] at hpw
      cases ph with
      | idle aw w => exact hboth ⟨hpa, hpw⟩
      | err | wapb | wresp | rapb | rresp => cases hst

/-- A port is read while no half of a write is held. -/
private theorem strobed_read {d : Bool → Strb P} {qs : List (Req P)} {ws : List (WBeat P)}
    (h : Strobed d tr s ph qs ws) (hsel : (s.port x).psel = true) (hread : (s.port x).pwrite = false) :
    (s.port x).pstrb = lastStrb x (d x) (servedBeats tr) := by
  have hv := h.rel.apb x
  cases ph with
  | rapb q en =>
    have haw : awReqs tr = qs := h.aw.trans (List.append_nil _)
    have hw : wBeats tr = ws := h.w.trans (List.append_nil _)
    rw [servedBeats, haw, hw, h.strb]
  | wapb q w en =>
    have hk := (Port.of_view_drive_if hv hsel).2
    rw [show (s.port x).pwrite = true from congrArg Ctrl.pwrite hk] at hread
    cases hread
  | idle | err | wresp | rresp =>
    rw [(Port.of_view_quiet hv).1] at hsel
    cases hsel

private theorem strobed_run {s₀ : State P} (h0 : IsReset s₀) (is : List (In P)) : ∃ ph qs ws,
    Strobed (fun x => (s₀.port x).pstrb) ((bridge P).trace s₀ is) ((bridge P).run s₀ is) ph qs ws := by
  have hinit : ∃ ph qs ws, Strobed (fun x => (s₀.port x).pstrb) [] s₀ ph qs ws :=
    ⟨_, [], [], rel_reset h0, rfl, rfl, rfl, fun _ => rfl⟩
  exact Machine.track (M := bridge P) (I := fun tr s => ∃ ph qs ws, Strobed _ tr s ph qs ws)
    (fun _ _ i ⟨ph, _, _, h⟩ _ => ⟨ph.step i, strobed_step h i⟩) hinit (fun _ _ => trivial)

end

end Simple

/-! ### Both bridges -/

/-- In a run from reset the strobes are low in all reads if and only if each port that is read has had low strobes in
its last write, or had them from the start. -/
theorem read_strobes (P : Params) :
    (∀ (s₀ : Burst.State P) (is : List (In P)), Burst.IsReset s₀ →
      ((∀ js, js <+: is → ReadsLow ((Burst.bridge P).run s₀ js).port) ↔
        ∀ js, js <+: is → ∀ x, (((Burst.bridge P).run s₀ js).port x).psel = true →
          (((Burst.bridge P).run s₀ js).port x).pwrite = false →
            lastStrb x (s₀.port x).pstrb (Burst.servedBeats ((Burst.bridge P).trace s₀ js)) = 0)) ∧
    ∀ (s₀ : Simple.State P) (is : List (In P)), Simple.IsReset s₀ →
      ((∀ js, js <+: is → ReadsLow ((Simple.bridge P).run s₀ js).port) ↔
        ∀ js, js <+: is → ∀ x, (((Simple.bridge P).run s₀ js).port x).psel = true →
          (((Simple.bridge P).run s₀ js).port x).pwrite = false →
            lastStrb x (s₀.port x).pstrb (Simple.servedBeats ((Simple.bridge P).trace s₀ js)) = 0) := by
  refine ⟨fun s₀ is h0 => ?_, fun s₀ is h0 => ?_⟩
  · refine forall_congr' fun js => forall_congr' fun _ => readsLow_iff fun x _ _ => ?_
    obtain ⟨ph, h⟩ := Burst.strobed_run h0 js
    exact h.strb x
  · refine forall_congr' fun js => forall_congr' fun _ => readsLow_iff fun x hsel hread => ?_
    obtain ⟨ph, qs, ws, h⟩ := Simple.strobed_run h0 js
    exact Simple.strobed_read h hsel hread

/-- A write with low strobes and a read of the same port, in both bridges. -/
theorem read_strobes_low :
    let r := In.ready (contract 4)
    let is := [r.withAw ⟨5, 0x1000, 0, 0b011, 0b01, 0⟩, r.withW ⟨7, 0, true⟩, r, r, r, r, r,
      r.withAr ⟨6, 0x1000, 0, 0b011, 0b01, 0⟩, r, r]
    (∀ js, js <+: is → ReadsLow ((Burst.bridge (contract 4)).run (Burst.State.zero _) js).port) ∧
      ∀ js, js <+: is → ReadsLow ((Simple.bridge (contract 4)).run (Simple.State.zero _) js).port := by
  refine ⟨((read_strobes _).1 _ _ (Burst.isReset_zero _)).2 fun js hjs => ?_,
    ((read_strobes _).2 _ _ (Simple.isReset_zero _)).2 fun js hjs => ?_⟩
  · rw [← List.mem_inits] at hjs
    revert js
    decide +kernel
  · rw [← List.mem_inits] at hjs
    revert js
    decide +kernel

/-- A write with all strobes high, and a read of the same port. -/
theorem read_strobes_violated :
    ¬ (∀ s : Burst.State (contract 4), Burst.Reachable s → ReadsLow s.port) ∧
      ¬ ∀ s : Simple.State (contract 4), Simple.Reachable s → ReadsLow s.port := by
  let r := In.ready (contract 4)
  let is := [r.withAw ⟨5, 0x1000, 0, 0b011, 0b01, 0⟩, r.withW ⟨7, 0xff, true⟩, r, r, r, r, r,
    r.withAr ⟨6, 0x1000, 0, 0b011, 0b01, 0⟩, r]
  have hburst : ¬ ReadsLow ((Burst.bridge (contract 4)).run (Burst.State.zero _) is).port := by decide +kernel
  have hsimple : ¬ ReadsLow ((Simple.bridge (contract 4)).run (Simple.State.zero _) is).port := by decide +kernel
  exact ⟨fun h => hburst (h _ (Burst.Reachable.run (Burst.reachable_zero _) is)),
    fun h => hsimple (h _ (Simple.Reachable.run (Simple.reachable_zero _) is))⟩

end AxiApb
