import AxiApb.ApbProtocol
import AxiApb.SimplePairing

/-!
# What always holds of the single-beat bridge

Whatever the inputs are, the APB ports keep their protocol, a write is started by one AW and one W beat, and a request
is answered once, under its own ID, by a response that stays until it is accepted (`handshakes`).
-/

namespace AxiApb.Simple

open Clocked

variable {P : Params}

/-! ### The APB ports -/

section
variable {s : State P} {ph : Phase P} {i j : In P}

/-- Each port of the transaction machine keeps the protocol. -/
theorem apb_step (ph : Phase P) (i : In P) (x : Bool) : ApbMove (ph.apb x) (i.pready x) ((ph.step i).apb x) := by
  cases ph with
  | idle aw w =>
    cases aw with
    | none =>
      rw [Phase.step, Phase.idleStep, Phase.startWrite, Phase.startRead]
      repeat' split
      all_goals first | exact .rest _ | exact .launched _ x _
    | some q =>
      cases w with
      | none => exact .rest _
      | some v => exact .launched _ x _
  | err q w => cases w <;> exact .rest _
  | wapb q w en =>
    cases en with
    | false => exact .enabled _ x _
    | true =>
      rw [Phase.step]
      cases hr : i.pready q.port with
      | true => exact .completed _ x hr
      | false => exact .waited _ x hr
  | rapb q en =>
    cases en with
    | false => exact .enabled _ x _
    | true =>
      rw [Phase.step]
      cases hr : i.pready q.port with
      | true => exact .completed _ x hr
      | false => exact .waited _ x hr
  | wresp v | rresp v =>
    cases v with
    | none => exact .rest _
    | some b => rw [Phase.step]; split <;> exact .rest _

/-- A transfer leaves the other port idle. -/
theorem exists_quiet (ph : Phase P) : ∃ x, ph.apb x = .quiet := by
  cases ph with
  | wapb q w en => exact ⟨!q.port, if_neg (by cases q.port <;> decide)⟩
  | rapb q en => exact ⟨!q.port, if_neg (by cases q.port <;> decide)⟩
  | idle | err | wresp | rresp => exact ⟨false, rfl⟩

theorem apbEdge_rel (hr : Rel s ph) (i : In P) : ApbEdge s.port (posedge s i).port i :=
  ApbEdge.of_moves hr.apb (rel_posedge hr i).apb (apb_step ph i) (exists_quiet ph)

/-- The selected port of a transfer, which `sel_apb1` points to. -/
theorem access_rel (hr : Rel s ph) (h : s.state = .writeApb ∨ s.state = .readApb) :
    ∃ k en, (s.port s.selApb1).view = ⟨true, en, some k⟩ ∧ k.pwrite = (s.state == .writeApb) := by
  have hcode := hr.code
  rw [hcode] at h ⊢
  have hl := hr.loads
  cases ph with
  | wapb q w en =>
    refine ⟨writeCtrl q w, en, ?_, rfl⟩
    rw [hr.apb, hl.sel]
    exact if_pos rfl
  | rapb q en =>
    refine ⟨readCtrl q, en, ?_, rfl⟩
    rw [hr.apb, hl.sel]
    exact if_pos rfl
  | idle | err | wresp | rresp => rcases h with h | h <;> cases h

/-- The end of an access phase is the only place where the APB inputs are read, and only those of the enabled port
are. -/
theorem posedge_congr (hr : Rel s ph) (hax : SameAxi i j) (hap : SameApb (fun x => (s.port x).view) i j) :
    posedge s i = posedge s j := by
  have hacc : s.state = .writeApb ∨ s.state = .readApb → (s.port s.selApb1).penable = true →
      i.pready s.selApb1 = j.pready s.selApb1 ∧ (i.pready s.selApb1 = true →
        i.pslverr s.selApb1 = j.pslverr s.selApb1 ∧
          (s.state = .readApb → i.prdata s.selApb1 = j.prdata s.selApb1)) := by
    intro h hen
    obtain ⟨k, en, hk, hw⟩ := access_rel hr h
    obtain ⟨h1, h2⟩ := hap s.selApb1 (congrArg PortView.psel hk) hen
    refine ⟨h1, fun hp => ?_⟩
    obtain ⟨h3, h4⟩ := h2 hp
    exact ⟨h3, fun hst => h4 k (congrArg PortView.ctrl hk) (by rw [hw, hst]; rfl)⟩
  have hresp : respDone s i s = respDone s j s := by rw [hax]; rfl
  unfold posedge
  rw [← hresp]
  cases hst : s.state with
  | idle =>
    rw [hax]
    rfl
  | writeApb =>
    show stWriteApb s i _ = stWriteApb s j _
    unfold stWriteApb
    cases hen : (s.port s.selApb1).penable with
    | false => rfl
    | true =>
      obtain ⟨h1, h2⟩ := hacc (Or.inl hst) hen
      rw [← h1]
      cases hp : i.pready s.selApb1 with
      | false => rfl
      | true => rw [(h2 hp).1]
  | readApb =>
    show stReadApb s i _ = stReadApb s j _
    unfold stReadApb
    cases hen : (s.port s.selApb1).penable with
    | false => rfl
    | true =>
      obtain ⟨h1, h2⟩ := hacc (Or.inr hst) hen
      rw [← h1]
      cases hp : i.pready s.selApb1 with
      | false => rfl
      | true => rw [(h2 hp).1, (h2 hp).2 hst]
  | errResp | writeResp | readResp | unused => rfl

end

/-! ### Since the last response -/

/-- A response is accepted. -/
def respTaken (c : Cycle P) : Bool := !(bTaken c).isEmpty || !(rTaken c).isEmpty

/-- The cycles after the last one in which a response was accepted. -/
def sinceResponse (tr : List (Cycle P)) : List (Cycle P) :=
  tr.foldl (fun l c => if respTaken c then [] else l ++ [c]) []

/-- What the cycles `l` have accepted. -/
structure Accepted (l : List (Cycle P)) (aw : List (Req P)) (w : List (WBeat P)) (ar : List (Req P)) : Prop where
  aw : awReqs l = aw
  w : wBeats l = w
  ar : arReqs l = ar

/-- The phase of the bridge, and what was accepted since the last response. -/
def SinceTrack (l : List (Cycle P)) : Phase P → Prop
  | .idle aw w => Accepted l aw.toList w.toList []
  | .err q w => Accepted l [q] w.toList []
  | .wapb q w _ => Accepted l [q] [w] []
  | .wresp (some b) => ∃ q w, b.bid = q.id ∧ Accepted l [q] [w] []
  | .rapb q _ => Accepted l [] [] [q]
  | .rresp (some r) => ∃ q, r.rid = q.id ∧ Accepted l [] [] [q]
  | .wresp none | .rresp none => Accepted l [] [] []

section
variable {tr l : List (Cycle P)} {ph : Phase P} {i : In P} {aw ar : List (Req P)} {w : List (WBeat P)}

private theorem sinceResponse_concat (tr : List (Cycle P)) (c : Cycle P) :
    sinceResponse (tr ++ [c]) = if respTaken c then [] else sinceResponse tr ++ [c] := by
  rw [sinceResponse, List.foldl_append]
  rfl

private theorem respTaken_out (ph : Phase P) (i : In P) :
    respTaken (i, ph.out i) = (i.bready && ph.b.isSome || i.rready && ph.r.isSome) := by
  rw [respTaken, bTaken_out, rTaken_out]
  cases i.bready <;> cases i.rready <;> cases ph.b <;> cases ph.r <;> rfl

private theorem arAccepted_out (ph : Phase P) (i : In P) : arAccepted (i, ph.out i) =
    if i.arvalid && (ph.isIdle && (!ph.awHeld && !ph.wHeld && !i.awvalid && !i.wvalid)) then [i.arReq] else [] := rfl

private theorem accepted_nil : Accepted ([] : List (Cycle P)) [] [] [] := ⟨rfl, rfl, rfl⟩

/-- Outside the idle phase nothing is accepted. -/
private theorem Accepted.busy (ph : Phase P) (i : In P) (h : Accepted l aw w ar) (hidle : ph.isIdle = false) :
    Accepted (l ++ [(i, ph.out i)]) aw w ar where
  aw := by rw [awReqs_concat, awAccepted_out, hidle, h.aw]; simp
  w := by rw [wBeats_concat, wTaken_out, hidle, h.w]; simp
  ar := by rw [arReqs_concat, arAccepted_out, hidle, h.ar]; simp

/-- A phase without a response. -/
private theorem since_quiet (hb : ph.b = none) (hr : ph.r = none) :
    sinceResponse (tr ++ [(i, ph.out i)]) = sinceResponse tr ++ [(i, ph.out i)] := by
  rw [sinceResponse_concat, respTaken_out, hb, hr]
  simp

/-- In the idle phase with an AW at hand at most a W beat is accepted. -/
private theorem Accepted.awaitW {q : Req P} {v : Option (WBeat P)} (h : Accepted l [q] v.toList []) (i : In P) :
    Accepted (l ++ [(i, (Phase.idle (some q) v).out i)]) [q] (Phase.takeW v i).toList [] where
  aw := by rw [awReqs_concat, awAccepted_out, h.aw]; simp [Phase.awHeld]
  w := by rw [wBeats_concat, h.w, wTaken_idle]
  ar := by rw [arReqs_concat, arAccepted_out, h.ar]; simp [Phase.awHeld]

/-- In the idle phase without an AW the next request may be accepted. -/
private theorem since_idleStep {v : Option (WBeat P)} (h : Accepted l [] v.toList []) (i : In P) :
    SinceTrack (l ++ [(i, (Phase.idle none v).out i)]) (.idleStep v i) := by
  have haw : awAccepted (i, (Phase.idle none v).out i) = if i.awvalid && !i.arvalid then [i.awReq] else [] := by
    rw [awAccepted_out]
    rfl
  have har : arAccepted (i, (Phase.idle none v).out i) =
      if v.isNone && (i.arvalid && !i.awvalid && !i.wvalid) then [i.arReq] else [] := by
    rw [arAccepted_out]
    cases v <;> cases i.arvalid <;> cases i.awvalid <;> cases i.wvalid <;> rfl
  have hall : Accepted (l ++ [(i, (Phase.idle none v).out i)]) (if i.awvalid && !i.arvalid then [i.awReq] else [])
      (Phase.takeW v i).toList
      (if v.isNone && (i.arvalid && !i.awvalid && !i.wvalid) then [i.arReq] else []) :=
    ⟨by rw [awReqs_concat, h.aw, haw, List.nil_append], by rw [wBeats_concat, h.w, wTaken_idle],
      by rw [arReqs_concat, h.ar, har, List.nil_append]⟩
  rw [Phase.idleStep]
  cases hv : i.awvalid && !i.arvalid with
  | true =>
    have hno : (i.arvalid && !i.awvalid && !i.wvalid) = false := by
      rw [Bool.and_eq_true] at hv
      rw [hv.1]
      simp
    rw [hv, hno, Bool.and_false] at hall
    rw [if_pos rfl, Phase.startWrite]
    split <;> exact hall
  | false =>
    rw [hv, if_neg Bool.false_ne_true] at hall
    rw [if_neg Bool.false_ne_true]
    cases hr : v.isNone && (i.arvalid && !i.awvalid && !i.wvalid) with
    | false =>
      rw [hr, if_neg Bool.false_ne_true] at hall
      exact hall
    | true =>
      -- a read is accepted only if no half of a write is held or offered
      have htake : Phase.takeW v i = none := by
        simp only [Bool.and_eq_true, Option.isNone_iff_eq_none, Bool.not_eq_true'] at hr
        rw [Phase.takeW, hr.1, hr.2.2]
        rfl
      rw [hr, if_pos rfl, htake] at hall
      rw [if_pos rfl, Phase.startRead]
      split
      · exact hall
      · exact ⟨i.arReq, rfl, hall⟩

private theorem since_step (h : SinceTrack (sinceResponse tr) ph) (i : In P) :
    SinceTrack (sinceResponse (tr ++ [(i, ph.out i)])) (ph.step i) := by
  cases ph with
  | idle aw v =>
    rw [since_quiet rfl rfl]
    cases aw with
    | none => exact since_idleStep h i
    | some q =>
      have hw := Accepted.awaitW h i
      cases v with
      | none => exact hw
      | some v => exact hw
  | err q v =>
    rw [since_quiet rfl rfl]
    cases v with
    | none => exact h.busy _ i rfl
    | some v => exact ⟨q, v, rfl, h.busy _ i rfl⟩
  | wapb q v en =>
    rw [since_quiet rfl rfl]
    have hb := Accepted.busy (.wapb q v en) i h rfl
    cases en with
    | false => exact hb
    | true =>
      rw [Phase.step]
      split
      · exact ⟨q, v, rfl, hb⟩
      · exact hb
  | rapb q en =>
    rw [since_quiet rfl rfl]
    have hb := Accepted.busy (.rapb q en) i h rfl
    cases en with
    | false => exact hb
    | true =>
      rw [Phase.step]
      split
      · exact ⟨q, rfl, hb⟩
      · exact hb
  | wresp b =>
    cases b with
    | none =>
      rw [since_quiet rfl rfl]
      exact Accepted.busy (.wresp none) i h rfl
    | some b =>
      rw [sinceResponse_concat, respTaken_out, Phase.step]
      cases hb : i.bready with
      | true => exact accepted_nil
      | false =>
        obtain ⟨q, v, hid, hacc⟩ := h
        simp only [Phase.r, Bool.false_and, Option.isSome_none, Bool.and_false, Bool.or_self]
        exact ⟨q, v, hid, hacc.busy _ i rfl⟩
  | rresp r =>
    cases r with
    | none =>
      rw [since_quiet rfl rfl]
      exact Accepted.busy (.rresp none) i h rfl
    | some r =>
      rw [sinceResponse_concat, respTaken_out, Phase.step]
      cases hr : i.rready with
      | true =>
        simp only [Phase.r, Option.isSome_some, Bool.and_self, Bool.or_true]
        exact accepted_nil
      | false =>
        obtain ⟨q, hid, hacc⟩ := h
        simp only [Phase.b, Bool.false_and, Option.isSome_none, Bool.and_false, Bool.or_self]
        exact ⟨q, hid, hacc.busy _ i rfl⟩

end

/-! ### One response for each request -/

/-- The responses that a phase can still give before the next request. -/
def Phase.owed : Phase P → Nat
  | idle aw _ => aw.toList.length
  | wresp b => b.toList.length
  | rresp r => r.toList.length
  | err .. | wapb .. | rapb .. => 1

def responses (tr : List (Cycle P)) : Nat := (bBeats tr).length + (rBeats tr).length

section
variable {s : State P} {ph : Phase P} {i : In P}

theorem Phase.owed_le_one (ph : Phase P) : ph.owed ≤ 1 := by
  cases ph with
  | idle v _ | wresp v | rresp v => cases v <;> simp [Phase.owed]
  | err | wapb | rapb => exact Nat.le_refl 1

private theorem reqTaken_idle {v : Option (WBeat P)} (h : reqTaken (i, (Phase.idle none v).out i) = false) :
    (Phase.idle none v).step i = .idle none (Phase.takeW v i) := by
  rw [reqTaken, Bool.or_eq_false_iff, arTaken_out] at h
  obtain ⟨haw, har⟩ := h
  have hw : (i.awvalid && !i.arvalid) = false := by simpa [awTaken, Phase.out, Phase.isIdle, Phase.awHeld] using haw
  have hr : (v.isNone && (i.arvalid && !i.awvalid && !i.wvalid)) = false := by
    rw [← har]
    cases v <;> cases i.arvalid <;> cases i.awvalid <;> cases i.wvalid <;> rfl
  rw [Phase.step, Phase.idleStep, hw, hr]
  rfl

/-- A response is paid for, and only a request brings a new one. -/
private theorem owed_step (ph : Phase P) (i : In P) (h : reqTaken (i, ph.out i) = false) :
    (bTaken (i, ph.out i)).length + (rTaken (i, ph.out i)).length + (ph.step i).owed ≤ ph.owed := by
  have hquiet : ph.b = none → ph.r = none → (bTaken (i, ph.out i)).length + (rTaken (i, ph.out i)).length = 0 := by
    intro hb hr
    rw [bTaken_out, rTaken_out, hb, hr]
    simp
  cases ph with
  | idle aw v =>
    rw [hquiet rfl rfl, Nat.zero_add]
    cases aw with
    | none => rw [reqTaken_idle h]; exact Nat.le_refl 0
    | some q => exact Phase.owed_le_one _
  | err q v =>
    rw [hquiet rfl rfl, Nat.zero_add]
    exact Phase.owed_le_one _
  | wapb q v en =>
    rw [hquiet rfl rfl, Nat.zero_add]
    exact Phase.owed_le_one _
  | rapb q en =>
    rw [hquiet rfl rfl, Nat.zero_add]
    exact Phase.owed_le_one _
  | wresp b =>
    rw [bTaken_out, rTaken_out]
    cases b with
    | none => simp [Phase.b, Phase.r, Phase.step, Phase.owed]
    | some b => rw [Phase.step]; cases i.bready <;> simp [Phase.b, Phase.r, Phase.owed]
  | rresp r =>
    rw [bTaken_out, rTaken_out]
    cases r with
    | none => simp [Phase.b, Phase.r, Phase.step, Phase.owed]
    | some r => rw [Phase.step]; cases i.rready <;> simp [Phase.b, Phase.r, Phase.owed]

private theorem owed_run {is : List (In P)} (h : ∀ c ∈ (engine P).trace ph is, reqTaken c = false) :
    responses ((engine P).trace ph is) ≤ ph.owed := by
  have hstart : responses ([] : List (Cycle P)) + ph.owed ≤ ph.owed := Nat.le_of_eq (Nat.zero_add _)
  have hrun := Machine.track (M := engine P) (I := fun tr p => responses tr + p.owed ≤ ph.owed)
    (fun tr p i hp hc => ?_) hstart h
  · exact Nat.le_trans (Nat.le_add_right _ _) hrun
  · have := owed_step p i hc
    show responses (tr ++ [(i, p.out i)]) + (p.step i).owed ≤ ph.owed
    rw [responses, bBeats_concat, rBeats_concat, List.length_append, List.length_append]
    rw [responses] at hp
    omega

end

/-! ### Every reachable state -/

/-- After a run with trace `tr` to the state `s`. -/
structure Handshakes (tr : List (Cycle P)) (s : State P) : Prop where
  apb : ∀ i, ApbEdge s.port (posedge s i).port i
  write_halves : ∀ x, (s.port x).psel = true → (s.port x).pwrite = true → ∃ q w,
    Accepted (sinceResponse tr) [q] [w] [] ∧ x = q.port ∧ (s.port x).ctrl = writeCtrl q w
  one_response : ¬ (s.bvalid = true ∧ s.rvalid = true)
  b_stable : ∀ i, s.bvalid = true → i.bready = false →
    (posedge s i).bvalid = true ∧ (posedge s i).bid = s.bid ∧ (posedge s i).bresp = s.bresp
  r_stable : ∀ i, s.rvalid = true → i.rready = false →
    (posedge s i).rvalid = true ∧ (posedge s i).rid = s.rid ∧ (posedge s i).rdata = s.rdata ∧
      (posedge s i).rresp = s.rresp ∧ (posedge s i).rlast = s.rlast
  busy : ∀ i, (∃ x, (s.port x).psel = true) ∨ s.bvalid = true ∨ s.rvalid = true →
    awready s i = false ∧ wready s i = false ∧ arready s i = false
  bid : s.bvalid = true → ∃ q w, Accepted (sinceResponse tr) [q] [w] [] ∧ s.bid = q.id
  rid : s.rvalid = true → ∃ q, Accepted (sinceResponse tr) [] [] [q] ∧ s.rid = q.id
  once : ∀ is, (∀ c ∈ (bridge P).trace s is, reqTaken c = false) → responses ((bridge P).trace s is) ≤ 1
  once_request : ∀ a is, reqTaken (a, out s a) = true →
    (∀ c ∈ (bridge P).trace (posedge s a) is, reqTaken c = false) → responses ((bridge P).trace s (a :: is)) ≤ 1

section
variable {s : State P} {ph : Phase P} {x : Bool} {i : In P} {tr : List (Cycle P)}

/-- A selected port shows the transfer of the phase. -/
private theorem psel_rel (hr : Rel s ph) (hsel : (s.port x).psel = true) :
    (∃ q w en, ph = .wapb q w en ∧ x = q.port ∧ (s.port x).ctrl = writeCtrl q w) ∨
      ∃ q en, ph = .rapb q en ∧ x = q.port ∧ (s.port x).ctrl = readCtrl q := by
  have hv := hr.apb x
  cases ph with
  | wapb q w en => exact Or.inl ⟨q, w, en, rfl, Port.of_view_drive_if hv hsel⟩
  | rapb q en => exact Or.inr ⟨q, en, rfl, Port.of_view_drive_if hv hsel⟩
  | idle | err | wresp | rresp =>
    rw [(Port.of_view_quiet hv).1] at hsel
    cases hsel

private theorem bvalid_rel (hr : Rel s ph) (h : s.bvalid = true) : ph = .wresp (some ⟨s.bid, s.bresp⟩) := by
  have hb := hr.b
  rw [h, if_pos rfl] at hb
  cases ph with
  | wresp b => rw [hb]; rfl
  | idle | err | wapb | rapb | rresp => cases hb

private theorem rvalid_rel (hr : Rel s ph) (h : s.rvalid = true) :
    ph = .rresp (some ⟨s.rid, s.rdata, s.rresp, s.rlast⟩) := by
  have hb := hr.r
  rw [h, if_pos rfl] at hb
  cases ph with
  | rresp r => rw [hb]; rfl
  | idle | err | wapb | rapb | wresp => cases hb

/-- Only the idle phase accepts anything. -/
private theorem ready_rel (hr : Rel s ph) (h : ph.isIdle = false) (i : In P) :
    awready s i = false ∧ wready s i = false ∧ arready s i = false := by
  simp [awready, wready, arready, hr.isIdle, h]

/-- No response is accepted together with a request. -/
private theorem responses_request (hr : Rel s ph) (h : reqTaken (i, out s i) = true) :
    bTaken (i, out s i) = [] ∧ rTaken (i, out s i) = [] := by
  rw [out_rel hr] at h ⊢
  rw [bTaken_out, rTaken_out]
  cases ph with
  | idle => simp [Phase.b, Phase.r]
  | err | wapb | wresp | rapb | rresp => simp [reqTaken, awTaken, arTaken, Phase.out, Phase.isIdle] at h

private theorem responses_le (hr : Rel s ph) {is : List (In P)} (h : ∀ c ∈ (bridge P).trace s is, reqTaken c = false) :
    responses ((bridge P).trace s is) ≤ 1 := by
  rw [trace_eq hr] at h ⊢
  exact Nat.le_trans (owed_run h) ph.owed_le_one

private theorem handshakes_of (hr : Rel s ph) (ht : SinceTrack (sinceResponse tr) ph) : Handshakes tr s where
  apb i := apbEdge_rel hr i
  write_halves x hsel hw := by
    rcases psel_rel hr hsel with ⟨q, w, en, rfl, hx, hk⟩ | ⟨q, en, rfl, hx, hk⟩
    · exact ⟨q, w, ht, hx, hk⟩
    · have hw' : (s.port x).pwrite = false := congrArg Ctrl.pwrite hk
      rw [hw'] at hw
      cases hw
  one_response := by
    rintro ⟨hb, hv⟩
    have h1 := bvalid_rel hr hb
    rw [rvalid_rel hr hv] at h1
    cases h1
  b_stable i hb hi := by
    have h1 := bvalid_rel hr hb
    have hnext := (rel_posedge hr i).b
    rw [h1, Phase.step, hi] at hnext
    change (if (posedge s i).bvalid then some (BBeat.mk (posedge s i).bid (posedge s i).bresp) else none) = some _
      at hnext
    split at hnext
    · rename_i hv
      rw [Option.some_inj, BBeat.mk.injEq] at hnext
      exact ⟨hv, hnext⟩
    · cases hnext
  r_stable i hv hi := by
    have h1 := rvalid_rel hr hv
    have hnext := (rel_posedge hr i).r
    rw [h1, Phase.step, hi] at hnext
    change (if (posedge s i).rvalid then some (RBeat.mk (posedge s i).rid (posedge s i).rdata (posedge s i).rresp
      (posedge s i).rlast) else none) = some _ at hnext
    split at hnext
    · rename_i hv'
      rw [Option.some_inj, RBeat.mk.injEq] at hnext
      exact ⟨hv', hnext⟩
    · cases hnext
  busy i h := by
    refine ready_rel hr ?_ i
    rcases h with ⟨x, hx⟩ | hb | hv
    · rcases psel_rel hr hx with ⟨q, w, en, rfl, -⟩ | ⟨q, en, rfl, -⟩ <;> rfl
    · rw [bvalid_rel hr hb]; rfl
    · rw [rvalid_rel hr hv]; rfl
  bid hb := by
    rw [bvalid_rel hr hb] at ht
    obtain ⟨q, w, hid, hacc⟩ := ht
    exact ⟨q, w, hacc, hid⟩
  rid hv := by
    rw [rvalid_rel hr hv] at ht
    obtain ⟨q, hid, hacc⟩ := ht
    exact ⟨q, hacc, hid⟩
  once is h := responses_le hr h
  once_request a is ha h := by
    obtain ⟨hb, hv⟩ := responses_request hr ha
    have hrest := responses_le (rel_posedge hr a) h
    rw [responses, Machine.trace_cons, bBeats, rBeats, List.flatMap_cons, List.flatMap_cons]
    show (bTaken (a, out s a) ++ _).length + (rTaken (a, out s a) ++ _).length ≤ 1
    rw [hb, hv]
    exact hrest

end

/-- Whatever a run from reset has accepted. -/
theorem handshakes {s₀ : State P} (h0 : IsReset s₀) (is : List (In P)) :
    Handshakes ((bridge P).trace s₀ is) ((bridge P).run s₀ is) := by
  have hstart : SinceTrack (sinceResponse []) (.idle none none : Phase P) := accepted_nil
  have hrun : ∃ ph, Rel ((bridge P).run s₀ is) ph ∧ SinceTrack (sinceResponse ((bridge P).trace s₀ is)) ph := by
    refine Machine.track (M := bridge P) (I := fun tr s => ∃ ph, Rel s ph ∧ SinceTrack (sinceResponse tr) ph)
      (fun tr s i ⟨ph, hr, ht⟩ _ => ⟨ph.step i, rel_posedge hr i, ?_⟩) ⟨_, rel_reset h0, hstart⟩
      (fun _ _ => trivial)
    show SinceTrack (sinceResponse (tr ++ [(i, out s i)])) (ph.step i)
    rw [out_rel hr]
    exact since_step ht i
  obtain ⟨ph, hr, ht⟩ := hrun
  exact handshakes_of hr ht

/-- A write whose W beat comes first, with its transfer in the setup phase. -/
theorem handshakes_w_first :
    let r := In.ready (contract 4)
    let is := [r.withW ⟨7, 0xff, true⟩, r.withAw ⟨5, 0x80001000, 0, 0b011, 0b01, 0b010⟩, r]
    Handshakes ((bridge _).trace (State.zero (contract 4)) is) ((bridge _).run (State.zero _) is) :=
  handshakes (isReset_zero _) _

end AxiApb.Simple
