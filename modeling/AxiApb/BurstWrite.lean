import AxiApb.Contract

/-!
# Writes of the burst bridge

What the ports show of a write in the supported configuration: the accepted W beats and the APB transfers between
its AW handshake and its B handshake (`write_transfers`), and its response (`write_response`).
-/

namespace AxiApb.Burst

open Clocked

variable {idWidth : Nat} {s : State (contract idWidth)} {a : In (contract idWidth)} {is : List (In (contract idWidth))}

/-! ### The data path -/

/-- From its AW handshake to its B handshake a supported write takes `writeBeats` W beats and makes one transfer for
each of them, in order, on the port of its address. -/
theorem write_transfers {b : In (contract idWidth)} (hs : Reachable s) (haw : awHandshake s a = true)
    (hq : a.awReq.Supported) (hopen : ∀ c ∈ (bridge _).trace (posedge s a) is, bTaken c = [])
    (hb : bTaken (b, out ((bridge _).run s (a :: is)) b) ≠ []) :
    let tr := (bridge _).trace s (a :: is ++ [b])
    (wBeats tr).length = writeBeats a.awlen (wBeats tr) ∧
      (xfers tr).map (fun x => (x.port, x.ctrl)) = (wBeats tr).mapIdx fun n w =>
        (a.awaddr.getLsbD 31, ⟨a.awReq.address n, a.awprot, true, some (w.wdata, w.wstrb)⟩) := by
  obtain ⟨ws, es, ⟨⟨ws', w, hws, hne⟩, hend, -⟩, hseen⟩ := write_closed hs haw hopen hb
  have hlen : ws.length = writeBeats a.awlen ws := by
    subst hws
    exact length_eq_writeBeats hne hend
  refine ⟨by rw [hseen.w, hlen], ?_⟩
  rw [hseen.drive, hseen.w, if_pos (Req.legal_iff_supported.2 hq), Req.writes_contract hq.1]
  rfl

/-- A write of two beats to port 1. -/
theorem write_transfers_two_beats :
    let r := In.ready (contract 4)
    let a := r.withAw ⟨5, 0x80001000, 1, 0b011, 0b01, 0b010⟩
    let tr := (bridge _).trace (State.zero _)
      (a :: [r.withW ⟨7, 0xff, false⟩, r, r, r.withW ⟨9, 0x0f, true⟩, r, r, r] ++ [r])
    (wBeats tr).length = writeBeats a.awlen (wBeats tr) ∧
      (xfers tr).map (fun x => (x.port, x.ctrl)) = (wBeats tr).mapIdx fun n w =>
        (a.awaddr.getLsbD 31, ⟨a.awReq.address n, a.awprot, true, some (w.wdata, w.wstrb)⟩) :=
  write_transfers (reachable_zero _) (by decide) (by decide) (by decide +kernel) (by decide +kernel)

/-! ### The response -/

/-- How the write `q` is answered, on the trace `tr` from its AW handshake to the state `s`: once, before the next
request, after its last W beat and the transfer of that beat, and with `DECERR` if it is unsupported, else `SLVERR`
if a transfer failed or the `WLAST`s are malformed, else `OKAY`. -/
structure WriteAnswer (q : Req (contract idWidth)) (tr : List (Cycle (contract idWidth))) (s : State (contract idWidth)) :
    Prop where
  once : (bBeats tr).length ≤ 1
  before_next : ∀ i, reqTaken (i, out s i) = true → (bBeats tr).length = 1
  after_beats : s.bvalid = true → (wBeats tr).length = writeBeats q.len (wBeats tr)
  after_xfers : s.bvalid = true → (xfers tr).length = if q.Supported then (wBeats tr).length else 0
  bid : ∀ v ∈ bBeats tr, v.bid = q.id
  decerr : ¬ q.Supported → ∀ v ∈ bBeats tr, v.bresp = respDecerr
  slverr : q.Supported → (∃ x ∈ xfers tr, x.pslverr = true) ∨ Malformed q.len (wBeats tr) →
    ∀ v ∈ bBeats tr, v.bresp = respSlverr
  okay : q.Supported → ¬ ((∃ x ∈ xfers tr, x.pslverr = true) ∨ Malformed q.len (wBeats tr)) →
    ∀ v ∈ bBeats tr, v.bresp = respOkay

section
variable {tr : List (Cycle (contract idWidth))} {q : Req (contract idWidth)}
  {ws xs : List (WBeat (contract idWidth))} {es : List Bool} {bs : List (BBeat (contract idWidth))}

private theorem exists_pslverr (h : WSeen q tr ws xs es bs) :
    es.contains true = true ↔ ∃ x ∈ xfers tr, x.pslverr = true := by
  rw [List.contains_iff_mem, ← h.errs, List.mem_map]

/-- The beats and transfers of a finished write. -/
private theorem finished_beats {v : Bool} (hok : (Phase.wresp q ws es v).Ok) (h : WSeen q tr ws ws es bs) :
    (wBeats tr).length = writeBeats q.len (wBeats tr) ∧
      (xfers tr).length = if q.Supported then (wBeats tr).length else 0 := by
  obtain ⟨⟨ws', w, rfl, hne⟩, hend, hes⟩ := hok
  have hx : (xfers tr).length = es.length := by rw [← h.errs, List.length_map]
  simp only [Req.legal_iff_supported] at hes
  rw [h.w, hx, hes]
  exact ⟨length_eq_writeBeats hne hend, rfl⟩

/-- A finished write answers by the contract. -/
private theorem finished_answer {v : Bool} (hok : (Phase.wresp q ws es v).Ok)
    (h : WSeen q tr ws ws es [q.bBeat ws es]) (s : State (contract idWidth)) (hs : s.bvalid = false) :
    WriteAnswer q tr s := by
  obtain ⟨⟨ws', w, hws, hne⟩, hend, hes⟩ := hok
  have hle : ws.length ≤ q.len.toNat + 1 := by
    have := (Req.wEnded_eq_false.1 hne).2
    rw [hws, List.length_append, List.length_singleton]
    omega
  have hbad : (es.contains true || q.malformed ws) = true ↔
      (∃ x ∈ xfers tr, x.pslverr = true) ∨ Malformed q.len (wBeats tr) := by
    rw [Bool.or_eq_true, exists_pslverr h, malformed_iff hle, h.w]
  have hmem : ∀ v ∈ bBeats tr, v = q.bBeat ws es := fun v hv => by rwa [h.b, List.mem_singleton] at hv
  refine ⟨by simp [h.b], fun _ _ => by simp [h.b], by simp [hs], by simp [hs], ?_, ?_, ?_, ?_⟩
  · intro v hv
    rw [hmem v hv]
    rfl
  · intro hq v hv
    rw [hmem v hv, Req.bBeat, if_neg (mt Req.legal_iff_supported.1 hq)]
  · intro hq hx v hv
    rw [hmem v hv, Req.bBeat, if_pos (Req.legal_iff_supported.2 hq), if_pos (hbad.2 hx)]
  · intro hq hx v hv
    rw [hmem v hv, Req.bBeat, if_pos (Req.legal_iff_supported.2 hq), if_neg (mt hbad.1 hx)]

/-- While a write is unanswered, no request can be accepted. -/
private theorem open_answer {ph : Phase (contract idWidth)} {s : State (contract idWidth)} (hr : Rel s ph)
    (hidle : ph.isIdle = false) (hb : bBeats tr = [])
    (hv : s.bvalid = true → (wBeats tr).length = writeBeats q.len (wBeats tr) ∧
      (xfers tr).length = if q.Supported then (wBeats tr).length else 0) : WriteAnswer q tr s := by
  have hbusy := reqTaken_busy hr hidle
  exact ⟨by simp [hb], fun i hi => absurd hi (by simp [hbusy i]), fun h => (hv h).1, fun h => (hv h).2,
    by simp [hb], by simp [hb], by simp [hb], by simp [hb]⟩

end

/-- Until the next request is accepted a write is answered as the contract says. -/
theorem write_response (hs : Reachable s) (haw : awHandshake s a = true)
    (hnext : ∀ c ∈ (bridge _).trace (posedge s a) is, reqTaken c = false) :
    WriteAnswer a.awReq ((bridge _).trace s (a :: is)) ((bridge _).run s (a :: is)) := by
  obtain ⟨ph, hr, ht⟩ := write_track hs haw hnext
  have hbv := hr.bvalid
  cases ph with
  | idle =>
    obtain ⟨ws, es, hok, h⟩ := ht
    exact finished_answer hok h _ hbv
  | wresp q ws es v =>
    obtain ⟨rfl, h⟩ := ht
    exact open_answer hr rfl h.b (fun _ => finished_beats hr.ok h)
  | wdata q ws es =>
    obtain ⟨rfl, h⟩ := ht
    exact open_answer hr rfl h.b (fun hv => by rw [hbv] at hv; cases hv)
  | wapb q ws w es en =>
    obtain ⟨rfl, h⟩ := ht
    exact open_answer hr rfl h.b (fun hv => by rw [hbv] at hv; cases hv)
  | rfetch | rapb | rbuf | rerr => exact ht.elim

/-- A write of two beats whose `WLAST` comes with the first. -/
theorem write_response_early_wlast :
    let r := In.ready (contract 4)
    let a := r.withAw ⟨5, 0x80001000, 1, 0b011, 0b01, 0b010⟩
    WriteAnswer a.awReq ((bridge _).trace (State.zero _) (a :: [r.withW ⟨7, 0xff, true⟩, r, r, r, r]))
      ((bridge _).run (State.zero _) (a :: [r.withW ⟨7, 0xff, true⟩, r, r, r, r])) :=
  write_response (reachable_zero _) (by decide) (by decide +kernel)

end AxiApb.Burst
