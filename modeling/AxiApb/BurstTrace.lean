import AxiApb.BurstRefine

/-!
# What is seen of one transaction

From the handshake of a request to the handshake of the next one the trace shows the beats and transfers of this
request only.  `WTrack` and `RTrack` relate what has been seen since the handshake to the phase of the transaction
machine, for a write and for a read; `write_track` and `read_track` carry them to the runs of the bridge.
-/

namespace AxiApb

open Clocked

variable {P : Params}

/-- The control of the transfers for the beats `ws` of a write, with their port. -/
def Req.writes (q : Req P) (ws : List (WBeat P)) : List (Bool × Ctrl P) :=
  ws.mapIdx fun n w => (q.port, q.writeCtrl n w)

/-- The transfers of the completed reads `ds`, and the R beats they return. -/
def Req.reads (q : Req P) (ds : List (ReadDone P)) : List (Xfer P) :=
  ds.mapIdx fun n d => ⟨q.port, q.readCtrl n, d.prdata, d.pslverr⟩

def Req.returns (q : Req P) (ds : List (ReadDone P)) : List (RBeat P) := ds.mapIdx q.rBeat

/-- The first `n` R beats of an illegal read. -/
def Req.padding (q : Req P) (n : Nat) : List (RBeat P) := (List.range n).map q.errBeat

namespace Burst

/-! ### Events of a phase -/

/-- The transfer that completes in a phase. -/
def Phase.done : Phase P → In P → List (Xfer P)
  | wapb q ws w _ true, i =>
    if i.pready q.port then [⟨q.port, q.writeCtrl ws.length w, i.prdata q.port, i.pslverr q.port⟩] else []
  | rapb q ds true, i =>
    if i.pready q.port then [⟨q.port, q.readCtrl ds.length, i.prdata q.port, i.pslverr q.port⟩] else []
  | _, _ => []

theorem wTaken_out (ph : Phase P) (i : In P) :
    wTaken (i, ph.out i) = if i.wvalid && ph.wready then [i.wBeat] else [] := rfl

theorem bTaken_out (ph : Phase P) (i : In P) : bTaken (i, ph.out i) = if i.bready then ph.b.toList else [] := rfl

theorem rTaken_out (ph : Phase P) (i : In P) : rTaken (i, ph.out i) = if i.rready then ph.r.toList else [] := rfl

theorem reqTaken_out (ph : Phase P) (i : In P) :
    reqTaken (i, ph.out i) = (ph.isIdle && (i.awvalid != i.arvalid)) := by
  show (i.awvalid && (ph.isIdle && !i.arvalid) || i.arvalid && (ph.isIdle && !i.awvalid)) = _
  cases i.awvalid <;> cases i.arvalid <;> simp

theorem wTaken_idle (i : In P) : wTaken (i, (Phase.idle : Phase P).out i) = [] := by simp [wTaken_out, Phase.wready]

/-- Outside the idle phase no request is accepted. -/
theorem awTaken_busy {ph : Phase P} (h : ph.isIdle = false) (i : In P) : awTaken (i, ph.out i) = false := by
  simp [awTaken, Phase.out, h]

theorem arTaken_busy {ph : Phase P} (h : ph.isIdle = false) (i : In P) : arTaken (i, ph.out i) = false := by
  simp [arTaken, Phase.out, h]

theorem apb_out (ph : Phase P) (i : In P) (x : Bool) : (ph.out i).apb x = ph.apb x := by
  cases x <;> rfl

theorem xferTaken_out (ph : Phase P) (i : In P) : xferTaken (i, ph.out i) = ph.done i := by
  cases ph with
  | wapb q ws w es en =>
    rw [xferTaken_drive (y := q.port) (k := q.writeCtrl ws.length w) (apb_out _ i)]
    cases en <;> rfl
  | rapb q ds en =>
    rw [xferTaken_drive (y := q.port) (k := q.readCtrl ds.length) (apb_out _ i)]
    cases en <;> rfl
  | idle | wdata | wresp | rfetch | rbuf | rerr => exact xferTaken_quiet (apb_out _ i)

/-- Without a request the idle phase stays. -/
private theorem idle_step {i : In P} (h : reqTaken (i, (Phase.idle : Phase P).out i) = false) :
    (Phase.idle : Phase P).step i = .idle := by
  rw [reqTaken_out, Phase.isIdle, Bool.true_and, bne_eq_false_iff_eq] at h
  rw [Phase.step, h]
  cases i.arvalid <;> rfl

/-! ### Writes -/

/-- What has been seen of a write: the accepted beats `ws`, the transfers for the beats `xs` and their errors `es`,
the responses `bs`. -/
structure WSeen (q : Req P) (tr : List (Cycle P)) (ws xs : List (WBeat P)) (es : List Bool) (bs : List (BBeat P)) :
    Prop where
  w : wBeats tr = ws
  drive : (xfers tr).map (fun x => (x.port, x.ctrl)) = if q.Legal then q.writes xs else []
  errs : (xfers tr).map (·.pslverr) = es
  b : bBeats tr = bs
  r : rBeats tr = []

/-- The phase of a write, and what has been seen of it. -/
def WTrack (q : Req P) (tr : List (Cycle P)) : Phase P → Prop
  | .wdata q' ws es => q' = q ∧ WSeen q tr ws ws es []
  | .wapb q' ws w es _ => q' = q ∧ WSeen q tr (ws ++ [w]) ws es []
  | .wresp q' ws es _ => q' = q ∧ WSeen q tr ws ws es []
  | .idle => ∃ ws es, (Phase.wresp q ws es true).Ok ∧ WSeen q tr ws ws es [q.bBeat ws es]
  | _ => False

section
variable {q : Req P} {tr : List (Cycle P)} {ws xs : List (WBeat P)} {es : List Bool} {bs : List (BBeat P)}
  {ph : Phase P} {i : In P}

/-- A cycle in which no transfer completes. -/
private theorem WSeen.concat (h : WSeen q tr ws xs es bs) (hx : ph.done i = []) (hr : ph.r = none) :
    WSeen q (tr ++ [(i, ph.out i)]) (ws ++ if i.wvalid && ph.wready then [i.wBeat] else []) xs es
      (bs ++ if i.bready then ph.b.toList else []) where
  w := by rw [wBeats_concat, wTaken_out, h.w]
  drive := by rw [xfers_concat, xferTaken_out, hx, List.append_nil, h.drive]
  errs := by rw [xfers_concat, xferTaken_out, hx, List.append_nil, h.errs]
  b := by rw [bBeats_concat, bTaken_out, h.b]
  r := by rw [rBeats_concat, rTaken_out, h.r, hr]; simp

private theorem WSeen.quiet (h : WSeen q tr ws xs es bs) (hw : (i.wvalid && ph.wready) = false)
    (hx : ph.done i = []) (hb : ph.b = none ∨ i.bready = false) (hr : ph.r = none) :
    WSeen q (tr ++ [(i, ph.out i)]) ws xs es bs := by
  have := h.concat hx hr
  rw [hw] at this
  rcases hb with hb | hb <;> simpa [hb] using this

private theorem WSeen.takeW (h : WSeen q tr ws xs es bs) (hw : (i.wvalid && ph.wready) = true)
    (hx : ph.done i = []) (hb : ph.b = none) (hr : ph.r = none) :
    WSeen q (tr ++ [(i, ph.out i)]) (ws ++ [i.wBeat]) xs es bs := by
  have := h.concat hx hr
  rw [hw, hb] at this
  simpa using this

private theorem WSeen.takeB {v : BBeat P} (h : WSeen q tr ws xs es bs) (hw : (i.wvalid && ph.wready) = false)
    (hx : ph.done i = []) (hb : ph.b = some v) (hi : i.bready = true) (hr : ph.r = none) :
    WSeen q (tr ++ [(i, ph.out i)]) ws xs es (bs ++ [v]) := by
  have := h.concat hx hr
  rw [hw, hb, hi] at this
  simpa using this

private theorem WSeen.done {w : WBeat P} {d : Data P} {e : Bool} (h : WSeen q tr ws xs es bs) (hq : q.Legal)
    (hw : (i.wvalid && ph.wready) = false) (hx : ph.done i = [⟨q.port, q.writeCtrl xs.length w, d, e⟩])
    (hb : ph.b = none) (hr : ph.r = none) :
    WSeen q (tr ++ [(i, ph.out i)]) ws (xs ++ [w]) (es ++ [e]) bs where
  w := by rw [wBeats_concat, wTaken_out, hw, h.w]; simp
  drive := by
    rw [xfers_concat, xferTaken_out, hx, List.map_append, h.drive, if_pos hq, if_pos hq, Req.writes, Req.writes,
      List.mapIdx_concat]
    rfl
  errs := by rw [xfers_concat, xferTaken_out, hx, List.map_append, h.errs]; rfl
  b := by rw [bBeats_concat, bTaken_out, h.b, hb]; simp
  r := by rw [rBeats_concat, rTaken_out, h.r, hr]; simp

/-- One cycle of a write, or after it, in which no new request is accepted. -/
private theorem wTrack_step (hok : ph.Ok) (h : WTrack q tr ph)
    (hreq : ph = .idle → reqTaken (i, ph.out i) = false) : WTrack q (tr ++ [(i, ph.out i)]) (ph.step i) := by
  cases ph with
  | idle =>
    obtain ⟨ws, es, hfin, hs⟩ := h
    rw [idle_step (hreq rfl)]
    exact ⟨ws, es, hfin, hs.quiet (by simp [Phase.wready]) rfl (Or.inl rfl) rfl⟩
  | wdata q' ws es =>
    obtain ⟨rfl, hs⟩ := h
    rw [Phase.step]
    cases hv : i.wvalid with
    | true =>
      have hw : (i.wvalid && (Phase.wdata q' ws es).wready) = true := by rw [hv]; rfl
      have := hs.takeW hw rfl rfl rfl
      rw [if_pos rfl, Phase.takeW]
      by_cases hq : q'.Legal
      · rw [if_pos hq]
        exact ⟨rfl, this⟩
      · have hs' : WSeen q' (tr ++ [(i, (Phase.wdata q' ws es).out i)]) (ws ++ [i.wBeat]) (ws ++ [i.wBeat]) es [] :=
          ⟨this.w, by rw [this.drive, if_neg hq, if_neg hq], this.errs, this.b, this.r⟩
        rw [if_neg hq]
        split <;> exact ⟨rfl, hs'⟩
    | false => exact ⟨rfl, hs.quiet (by rw [hv]; rfl) rfl (Or.inl rfl) rfl⟩
  | wapb q' ws w es en =>
    obtain ⟨rfl, hs⟩ := h
    have hw : (i.wvalid && (Phase.wapb q' ws w es en).wready) = false := by simp [Phase.wready]
    cases en with
    | false => exact ⟨rfl, hs.quiet hw rfl (Or.inl rfl) rfl⟩
    | true =>
      rw [Phase.step]
      cases hp : i.pready q'.port with
      | true =>
        have hx : (Phase.wapb q' ws w es true).done i = [⟨q'.port, q'.writeCtrl ws.length w, _, _⟩] := if_pos hp
        have := hs.done hok.1 hw hx rfl rfl
        rw [if_pos rfl, Phase.wDone]
        split <;> exact ⟨rfl, this⟩
      | false => exact ⟨rfl, hs.quiet hw (by simp [Phase.done, hp]) (Or.inl rfl) rfl⟩
  | wresp q' ws es v =>
    obtain ⟨rfl, hs⟩ := h
    have hw : (i.wvalid && (Phase.wresp q' ws es v).wready) = false := by simp [Phase.wready]
    cases v with
    | false => exact ⟨rfl, hs.quiet hw rfl (Or.inl rfl) rfl⟩
    | true =>
      rw [Phase.step]
      cases hb : i.bready with
      | true => exact ⟨ws, es, hok, hs.takeB hw rfl rfl hb rfl⟩
      | false => exact ⟨rfl, hs.quiet hw rfl (Or.inr hb) rfl⟩
  | rfetch | rapb | rbuf | rerr => exact h.elim

end

/-! ### Reads -/

/-- What has been seen of a read: the transfers `xs` and the accepted R beats `rs`. -/
structure RSeen (tr : List (Cycle P)) (xs : List (Xfer P)) (rs : List (RBeat P)) : Prop where
  x : xfers tr = xs
  r : rBeats tr = rs
  w : wBeats tr = []
  b : bBeats tr = []

/-- The phase of a read, and what has been seen of it. -/
def RTrack (q : Req P) (tr : List (Cycle P)) : Phase P → Prop
  | .rfetch q' ds => q' = q ∧ RSeen tr (q.reads ds) (q.returns ds)
  | .rapb q' ds _ => q' = q ∧ RSeen tr (q.reads ds) (q.returns ds)
  | .rbuf q' ds d _ => q' = q ∧ RSeen tr (q.reads (ds ++ [d])) (q.returns ds)
  | .rerr q' n _ => q' = q ∧ RSeen tr [] (q.padding n)
  | .idle =>
    if q.Legal then ∃ ds, ds.length = q.beats ∧ RSeen tr (q.reads ds) (q.returns ds)
    else RSeen tr [] (q.padding q.beats)
  | _ => False

section
variable {q : Req P} {tr : List (Cycle P)} {xs : List (Xfer P)} {rs : List (RBeat P)} {ph : Phase P} {i : In P}

private theorem RSeen.concat (ph : Phase P) (i : In P) (h : RSeen tr xs rs) (hw : ph.wready = false)
    (hb : ph.b = none) :
    RSeen (tr ++ [(i, ph.out i)]) (xs ++ ph.done i) (rs ++ if i.rready then ph.r.toList else []) where
  x := by rw [xfers_concat, xferTaken_out, h.x]
  r := by rw [rBeats_concat, rTaken_out, h.r]
  w := by rw [wBeats_concat, wTaken_out, h.w, hw]; simp
  b := by rw [bBeats_concat, bTaken_out, h.b, hb]; simp

private theorem RSeen.quiet (h : RSeen tr xs rs) (hw : ph.wready = false) (hb : ph.b = none) (hx : ph.done i = [])
    (hr : ph.r = none ∨ i.rready = false) : RSeen (tr ++ [(i, ph.out i)]) xs rs := by
  have := h.concat ph i hw hb
  rw [hx, List.append_nil] at this
  rcases hr with hr | hr <;> simpa [hr] using this

/-- One cycle of a read, or after it, in which no new request is accepted. -/
private theorem rTrack_step (hok : ph.Ok) (h : RTrack q tr ph)
    (hreq : ph = .idle → reqTaken (i, ph.out i) = false) : RTrack q (tr ++ [(i, ph.out i)]) (ph.step i) := by
  cases ph with
  | idle =>
    rw [idle_step (hreq rfl)]
    by_cases hq : q.Legal
    · simp only [RTrack, if_pos hq] at h ⊢
      obtain ⟨ds, hlen, hs⟩ := h
      exact ⟨ds, hlen, hs.quiet rfl rfl rfl (Or.inl rfl)⟩
    · simp only [RTrack, if_neg hq] at h ⊢
      exact h.quiet rfl rfl rfl (Or.inl rfl)
  | rfetch q' ds =>
    obtain ⟨rfl, hs⟩ := h
    exact ⟨rfl, hs.quiet rfl rfl rfl (Or.inl rfl)⟩
  | rapb q' ds en =>
    obtain ⟨rfl, hs⟩ := h
    cases en with
    | false => exact ⟨rfl, hs.quiet rfl rfl rfl (Or.inl rfl)⟩
    | true =>
      rw [Phase.step]
      cases hp : i.pready q'.port with
      | true =>
        have := hs.concat (.rapb q' ds true) i rfl rfl
        simp only [Phase.done, hp, Phase.r, Option.toList_none, ite_self, List.append_nil, if_true] at this
        rw [if_pos rfl]
        refine ⟨rfl, ?_⟩
        rw [Req.reads, List.mapIdx_concat]
        exact this
      | false => exact ⟨rfl, hs.quiet rfl rfl (by simp [Phase.done, hp]) (Or.inl rfl)⟩
  | rbuf q' ds d v =>
    obtain ⟨rfl, hs⟩ := h
    cases v with
    | false => exact ⟨rfl, hs.quiet rfl rfl rfl (Or.inl rfl)⟩
    | true =>
      rw [Phase.step]
      cases hr : i.rready with
      | true =>
        have := hs.concat (.rbuf q' ds d true) i rfl rfl
        have hs' : RSeen (tr ++ [(i, (Phase.rbuf q' ds d true).out i)]) (q'.reads (ds ++ [d]))
            (q'.returns (ds ++ [d])) := by
          rw [Req.returns, List.mapIdx_concat]
          simpa [Phase.done, hr, Phase.r, Req.returns] using this
        rw [if_pos rfl]
        split
        · rename_i hlast
          have hlen : ds.length = q'.len.toNat := by simpa using hlast
          simp only [RTrack, if_pos hok.1]
          exact ⟨ds ++ [d], by simp [Req.beats, hlen], hs'⟩
        · exact ⟨rfl, hs'⟩
      | false => exact ⟨rfl, hs.quiet rfl rfl rfl (Or.inr hr)⟩
  | rerr q' n v =>
    obtain ⟨rfl, hs⟩ := h
    cases v with
    | false => exact ⟨rfl, hs.quiet rfl rfl rfl (Or.inl rfl)⟩
    | true =>
      rw [Phase.step]
      cases hr : i.rready with
      | true =>
        have := hs.concat (.rerr q' n true) i rfl rfl
        have hs' : RSeen (tr ++ [(i, (Phase.rerr q' n true).out i)]) [] (q'.padding (n + 1)) := by
          rw [Req.padding, List.range_succ, List.map_append]
          simpa [Phase.done, hr, Phase.r, Req.padding] using this
        rw [if_pos rfl]
        split
        · rename_i hlast
          have hn : n = q'.len.toNat := by simpa using hlast
          simp only [RTrack, if_neg hok.1]
          rw [Req.beats, ← hn]
          exact hs'
        · exact ⟨rfl, hs'⟩
      | false => exact ⟨rfl, hs.quiet rfl rfl rfl (Or.inr hr)⟩
  | wdata | wapb | wresp => exact h.elim

end

/-! ### From a handshake on -/

section
variable {s : State P} {a : In P} {is : List (In P)}

/-- No request is accepted while one is served. -/
theorem reqTaken_busy {ph : Phase P} (hr : Rel s ph) (h : ph.isIdle = false) (i : In P) :
    reqTaken (i, out s i) = false := by
  rw [out_rel hr, reqTaken_out, h]
  rfl

/-- An address handshake takes the bridge out of the idle phase. -/
private theorem rel_idle_of_ready (hs : Reachable s) (h : idleForNew s = true) : Rel s .idle := by
  obtain ⟨ph, hr⟩ := hs.rel
  rw [idleForNew_rel hr] at h
  cases ph with
  | idle => exact hr
  | _ => cases h

theorem rel_of_aw (hs : Reachable s) (haw : awHandshake s a = true) :
    Rel s .idle ∧ Rel (posedge s a) (.wdata a.awReq [] []) := by
  simp only [awHandshake, awready, Bool.and_eq_true, Bool.not_eq_true'] at haw
  have hr := rel_idle_of_ready hs haw.2.1
  refine ⟨hr, ?_⟩
  have := rel_posedge hr a
  rwa [Phase.step, haw.1, haw.2.2] at this

theorem rel_of_ar (hs : Reachable s) (har : arHandshake s a = true) :
    Rel s .idle ∧ Rel (posedge s a) (.startRead a.arReq) := by
  simp only [arHandshake, arready, Bool.and_eq_true, Bool.not_eq_true'] at har
  have hr := rel_idle_of_ready hs har.2.1
  refine ⟨hr, ?_⟩
  have := rel_posedge hr a
  rwa [Phase.step, har.1, har.2.2] at this

private theorem out_idle (hs : Rel s .idle) : out s a = (Phase.idle : Phase P).out a := out_rel hs a

/-- Nothing but the address handshake happens in its cycle. -/
private theorem wSeen_first (q : Req P) (a : In P) : WSeen q [(a, (Phase.idle : Phase P).out a)] [] [] [] [] where
  w := by simp [wBeats, wTaken_out, Phase.wready]
  drive := by simp [xfers, xferTaken_out, Phase.done, Req.writes]
  errs := by simp [xfers, xferTaken_out, Phase.done]
  b := by simp [bBeats, bTaken_out, Phase.b]
  r := by simp [rBeats, rTaken_out, Phase.r]

private theorem rSeen_first (a : In P) : RSeen [(a, (Phase.idle : Phase P).out a)] [] [] where
  x := by simp [xfers, xferTaken_out, Phase.done]
  r := by simp [rBeats, rTaken_out, Phase.r]
  w := by simp [wBeats, wTaken_out, Phase.wready]
  b := by simp [bBeats, bTaken_out, Phase.b]

/-- What every cycle of the transaction machine keeps is kept along the runs of the bridge from a handshake on. -/
private theorem track_from {I : List (Cycle P) → Phase P → Prop} {Ok : Cycle P → Prop} {ph : Phase P}
    (h0 : Rel s .idle) (h1 : Rel (posedge s a) ph)
    (hstep : ∀ tr ph i, ph.Ok → I tr ph → Ok (i, ph.out i) → I (tr ++ [(i, ph.out i)]) (ph.step i))
    (hI : I [(a, (Phase.idle : Phase P).out a)] ph) (hok : ∀ c ∈ (bridge P).trace (posedge s a) is, Ok c) :
    ∃ ph', Rel ((bridge P).run s (a :: is)) ph' ∧ I ((bridge P).trace s (a :: is)) ph' := by
  rw [trace_eq h1] at hok
  have hT := Machine.track (M := engine P) (I := fun tr ph => ph.Ok ∧ I tr ph)
    (fun tr ph i h hc => ⟨ok_step h.1 i, hstep tr ph i h.1 h.2 hc⟩) ⟨h1.ok, hI⟩ hok
  refine ⟨_, rel_run h1 is, ?_⟩
  rw [Machine.trace_cons]
  show I ((a, out s a) :: (bridge P).trace (posedge s a) is) _
  rw [trace_eq h1, out_idle h0]
  exact hT.2

/-- From an AW handshake on, while no new request is accepted. -/
theorem write_track (hs : Reachable s) (haw : awHandshake s a = true)
    (hreq : ∀ c ∈ (bridge P).trace (posedge s a) is, reqTaken c = false) :
    ∃ ph, Rel ((bridge P).run s (a :: is)) ph ∧ WTrack a.awReq ((bridge P).trace s (a :: is)) ph := by
  obtain ⟨h0, h1⟩ := rel_of_aw hs haw
  exact track_from h0 h1 (fun _ _ _ hok ht hc => wTrack_step hok ht (fun _ => hc)) ⟨rfl, wSeen_first a.awReq a⟩ hreq

/-- A finished write has had its response. -/
private theorem not_idle_of_open {q : Req P} {tr : List (Cycle P)} {ph : Phase P} (ht : WTrack q tr ph)
    (hnil : bBeats tr = []) : ph ≠ .idle := by
  rintro rfl
  obtain ⟨ws, es, -, h⟩ := ht
  rw [h.b] at hnil
  cases hnil

/-- The same while no B beat is accepted: then no request can be accepted either. -/
theorem write_track_open (hs : Reachable s) (haw : awHandshake s a = true)
    (hb : ∀ c ∈ (bridge P).trace (posedge s a) is, bTaken c = []) :
    ∃ ph, Rel ((bridge P).run s (a :: is)) ph ∧ WTrack a.awReq ((bridge P).trace s (a :: is)) ph ∧
      bBeats ((bridge P).trace s (a :: is)) = [] := by
  obtain ⟨h0, h1⟩ := rel_of_aw hs haw
  refine track_from (I := fun tr ph => WTrack a.awReq tr ph ∧ bBeats tr = []) h0 h1 ?_
    ⟨⟨rfl, wSeen_first a.awReq a⟩, (wSeen_first a.awReq a).b⟩ hb
  intro tr ph i hok ht hc
  refine ⟨wTrack_step hok ht.1 (fun e => absurd e (not_idle_of_open ht.1 ht.2)), ?_⟩
  rw [bBeats_concat, ht.2, hc]
  rfl

/-- The write as it is seen from its AW handshake to its B handshake, both included. -/
theorem write_closed {b : In P} (hs : Reachable s) (haw : awHandshake s a = true)
    (hb : ∀ c ∈ (bridge P).trace (posedge s a) is, bTaken c = [])
    (hlast : bTaken (b, out ((bridge P).run s (a :: is)) b) ≠ []) :
    ∃ ws es, (Phase.wresp a.awReq ws es true).Ok ∧
      WSeen a.awReq ((bridge P).trace s (a :: is ++ [b])) ws ws es [a.awReq.bBeat ws es] := by
  obtain ⟨ph, hr, ht, hnil⟩ := write_track_open hs haw hb
  rw [out_rel hr, bTaken_out] at hlast
  have hT := wTrack_step (i := b) hr.ok ht (fun e => absurd e (not_idle_of_open ht hnil))
  rw [Machine.trace_concat]
  show ∃ ws es, _ ∧ WSeen _ (_ ++ [(b, out ((bridge P).run s (a :: is)) b)]) _ _ _ _
  rw [out_rel hr]
  cases ph with
  | wresp q ws es v =>
    cases v with
    | true =>
      cases hv : b.bready with
      | true =>
        rw [Phase.step, hv] at hT
        obtain ⟨ws', es', hok, hT⟩ := hT
        exact ⟨ws', es', hok, hT⟩
      | false => simp [hv] at hlast
    | false => simp [Phase.b] at hlast
  | _ => simp [Phase.b] at hlast

/-- From an AR handshake on, while no new request is accepted. -/
theorem read_track (hs : Reachable s) (har : arHandshake s a = true)
    (hreq : ∀ c ∈ (bridge P).trace (posedge s a) is, reqTaken c = false) :
    ∃ ph, Rel ((bridge P).run s (a :: is)) ph ∧ RTrack a.arReq ((bridge P).trace s (a :: is)) ph := by
  obtain ⟨h0, h1⟩ := rel_of_ar hs har
  have hstart : RTrack a.arReq [(a, (Phase.idle : Phase P).out a)] (.startRead a.arReq) := by
    unfold Phase.startRead
    split <;> exact ⟨rfl, rSeen_first a⟩
  exact track_from h0 h1 (fun _ _ _ hok ht hc => rTrack_step hok ht (fun _ => hc)) hstart hreq

end

end Burst

end AxiApb
