import AxiApb.Contract

/-!
# Reads of the burst bridge

What the ports show of a supported read: its APB reads, and the R beats that return them (`read_returns`).
-/

namespace AxiApb.Burst

open Clocked

variable {idWidth : Nat}

/-- How the read `q` is served, on the trace `tr` from its AR handshake to the state `s`: the transfers are its first
reads, in order, on the port of its address; each R beat returns the transfer of the same number; and no request is
accepted before all beats are returned. -/
structure ReadService (q : Req (contract idWidth)) (tr : List (Cycle (contract idWidth))) (s : State (contract idWidth)) :
    Prop where
  reads : (xfers tr).map (fun x => (x.port, x.ctrl)) =
    (List.range (xfers tr).length).map fun n => (q.addr.getLsbD 31, ⟨q.address n, q.prot, false, none⟩)
  reads_le : (xfers tr).length ≤ q.len.toNat + 1
  returns_le : (rBeats tr).length ≤ (xfers tr).length
  returns : rBeats tr = ((xfers tr).take (rBeats tr).length).mapIdx fun n x =>
    ⟨q.id, x.prdata, if x.pslverr then respSlverr else respOkay, n == q.len.toNat⟩
  before_next : ∀ i, reqTaken (i, out s i) = true → ∃ r ∈ rBeats tr, r.rlast = true
  complete : (∃ r ∈ rBeats tr, r.rlast = true) →
    (xfers tr).length = q.len.toNat + 1 ∧ (rBeats tr).length = q.len.toNat + 1

section
variable {q : Req (contract idWidth)} {tr : List (Cycle (contract idWidth))} {s : State (contract idWidth)}
  {ds ds' : List (ReadDone (contract idWidth))}

/-- The R beat `n` is the last one just for `n = ARLEN`. -/
private theorem exists_rlast (hle : ds.length ≤ q.len.toNat + 1) :
    (∃ r ∈ q.returns ds, r.rlast = true) ↔ ds.length = q.len.toNat + 1 := by
  constructor
  · rintro ⟨r, hr, hlast⟩
    obtain ⟨n, hn, rfl⟩ := List.mem_mapIdx.1 hr
    have : n = q.len.toNat := by simpa [Req.rBeat] using hlast
    omega
  · intro h
    have hn : q.len.toNat < ds.length := by omega
    exact ⟨_, List.mem_mapIdx.2 ⟨_, hn, rfl⟩, by simp [Req.rBeat]⟩

private theorem reads_drive (hq : q.Supported) :
    (q.reads ds).map (fun x => (x.port, x.ctrl)) =
      (List.range ds.length).map fun n => (q.addr.getLsbD 31, ⟨q.address n, q.prot, false, none⟩) := by
  apply List.ext_getElem
  · simp [Req.reads]
  · intro n _ _
    simp [Req.reads, Req.readCtrl, Req.beatAddr_contract hq.1, Req.port]

private theorem returns_eq :
    q.returns ds = ((q.reads (ds ++ ds')).take ds.length).mapIdx fun n x =>
      ⟨q.id, x.prdata, if x.pslverr then respSlverr else respOkay, n == q.len.toNat⟩ := by
  apply List.ext_getElem
  · simp [Req.reads, Req.returns]
  · intro n hn _
    have hlt : n < ds.length := by simpa [Req.returns] using hn
    simp [Req.reads, Req.returns, Req.rBeat, List.getElem_append_left hlt]

/-- Of the reads `xs` that have been made the first ones, `ds`, have been returned. -/
private theorem service_of {xs : List (ReadDone (contract idWidth))} (hq : q.Supported)
    (h : RSeen tr (q.reads xs) (q.returns ds)) (hpre : ds <+: xs) (hle : xs.length ≤ q.len.toNat + 1)
    (hnext : ds.length = q.len.toNat + 1 ∨ ∀ i, reqTaken (i, out s i) = false) : ReadService q tr s := by
  have hx : (xfers tr).length = xs.length := by rw [h.x, Req.reads, List.length_mapIdx]
  have hr : (rBeats tr).length = ds.length := by rw [h.r, Req.returns, List.length_mapIdx]
  have hds : ds.length ≤ xs.length := hpre.length_le
  have hlast := exists_rlast (Nat.le_trans hds hle)
  refine ⟨?_, by rw [hx]; exact hle, by rw [hx, hr]; exact hds, ?_, ?_, ?_⟩
  · rw [hx, h.x]
    exact reads_drive hq
  · obtain ⟨ds', rfl⟩ := hpre
    rw [hr, h.x, h.r]
    exact returns_eq
  · intro i hi
    rw [h.r, hlast]
    rcases hnext with hn | hn
    · exact hn
    · rw [hn i] at hi
      cases hi
  · rw [hx, hr, h.r, hlast]
    intro he
    exact ⟨by omega, he⟩

end

/-- Until the next request is accepted a supported read is served as the contract says. -/
theorem read_returns {s : State (contract idWidth)} {a : In (contract idWidth)} {is : List (In (contract idWidth))}
    (hs : Reachable s) (har : arHandshake s a = true) (hq : a.arReq.Supported)
    (hnext : ∀ c ∈ (bridge _).trace (posedge s a) is, reqTaken c = false) :
    ReadService a.arReq ((bridge _).trace s (a :: is)) ((bridge _).run s (a :: is)) := by
  obtain ⟨ph, hr, ht⟩ := read_track hs har hnext
  have hok := hr.ok
  have hlegal := Req.legal_iff_supported.2 hq
  cases ph with
  | idle =>
    rw [RTrack, if_pos hlegal] at ht
    obtain ⟨ds, hlen, h⟩ := ht
    exact service_of hq h List.prefix_rfl (Nat.le_of_eq hlen) (Or.inl hlen)
  | rfetch q ds =>
    obtain ⟨rfl, h⟩ := ht
    exact service_of hq h List.prefix_rfl (Nat.le_succ_of_le hok.2) (Or.inr (reqTaken_busy hr rfl))
  | rapb q ds en =>
    obtain ⟨rfl, h⟩ := ht
    exact service_of hq h List.prefix_rfl (Nat.le_succ_of_le hok.2) (Or.inr (reqTaken_busy hr rfl))
  | rbuf q ds d v =>
    obtain ⟨rfl, h⟩ := ht
    have hle : (ds ++ [d]).length ≤ a.arReq.len.toNat + 1 := by
      rw [List.length_append, List.length_singleton]
      exact Nat.succ_le_succ hok.2
    exact service_of hq h (List.prefix_append ds [d]) hle (Or.inr (reqTaken_busy hr rfl))
  | rerr q n v =>
    obtain ⟨rfl, -⟩ := ht
    exact absurd hlegal hok.1
  | wdata | wapb | wresp => exact ht.elim

/-- A read of two beats from port 0 whose first transfer waits for one cycle and whose second one fails. -/
theorem read_returns_two_beats :
    let r := In.ready (contract 4)
    let a := r.withAr ⟨5, 0x1000, 1, 0b011, 0b01, 0b010⟩
    let is := [r, r, { r with pready0 := false }, { r with prdata0 := 7 }, r, r, r, r, { r with pslverr0 := true }, r]
    ReadService a.arReq ((bridge _).trace (State.zero _) (a :: is)) ((bridge _).run (State.zero _) (a :: is)) :=
  read_returns (reachable_zero _) (by decide) (by decide +kernel) (by decide +kernel)

end AxiApb.Burst
