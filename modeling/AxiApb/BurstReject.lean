import AxiApb.Contract

/-!
# Unsupported requests

An unsupported request selects no APB port.  A write is drained up to its last beat and answered once
(`WriteDrain`), a read is answered with as many beats as it asked for (`ReadDrain`), and the bridge is idle again
(`reject_drains`).
-/

namespace AxiApb.Burst

open Clocked

variable {idWidth : Nat}

/-- `PSEL0`, `PENABLE0`, `PSEL1` and `PENABLE1` are low. -/
def PortsLow {P : Params} (s : State P) : Prop :=
  s.port0.psel = false ∧ s.port0.penable = false ∧ s.port1.psel = false ∧ s.port1.penable = false

/-- How the unsupported write `q` is drained, on the trace `tr` from its AW handshake to the state `s`. -/
structure WriteDrain (q : Req (contract idWidth)) (tr : List (Cycle (contract idWidth))) (s : State (contract idWidth)) :
    Prop where
  beats_le : (wBeats tr).length ≤ writeBeats q.len (wBeats tr)
  wready : (wBeats tr).length < writeBeats q.len (wBeats tr) → wready s = true
  bvalid : (wBeats tr).length = writeBeats q.len (wBeats tr) → bBeats tr = [] →
    s.bvalid = true ∨ ∀ i, (posedge s i).bvalid = true
  response : bBeats tr ≠ [] → bBeats tr = [⟨q.id, respDecerr⟩] ∧ (wBeats tr).length = writeBeats q.len (wBeats tr)
  idle : bBeats tr ≠ [] → idleForNew s = true
  before_next : ∀ i, reqTaken (i, out s i) = true → bBeats tr ≠ []

/-- How the unsupported read `q` is answered, on the trace `tr` from its AR handshake to the state `s`. -/
structure ReadDrain (q : Req (contract idWidth)) (tr : List (Cycle (contract idWidth))) (s : State (contract idWidth)) :
    Prop where
  beats_le : (rBeats tr).length ≤ q.len.toNat + 1
  returns : rBeats tr = (List.range (rBeats tr).length).map fun n => ⟨q.id, 0, respDecerr, n == q.len.toNat⟩
  rvalid : (rBeats tr).length < q.len.toNat + 1 → s.rvalid = true ∨ ∀ i, (posedge s i).rvalid = true
  idle : (rBeats tr).length = q.len.toNat + 1 → idleForNew s = true
  before_next : ∀ i, reqTaken (i, out s i) = true → (rBeats tr).length = q.len.toNat + 1

section
variable {P : Params} {s : State P} {ph : Phase P}

/-- Only a transfer selects a port. -/
private theorem portsLow_of_quiet (hr : Rel s ph) (h : ∀ x, ph.apb x = .quiet) : PortsLow s := by
  have h0 : s.port0.view = .quiet := (hr.apb false).trans (h false)
  have h1 : s.port1.view = .quiet := (hr.apb true).trans (h true)
  simp only [Port.view, PortView.quiet, PortView.mk.injEq] at h0 h1
  exact ⟨h0.1, h0.2.1, h1.1, h1.2.1⟩

/-- Without a new request the ports stay low after the handshake of an unsupported write. -/
private theorem portsLow_write {q : Req P} {tr : List (Cycle P)} (hq : ¬ q.Legal) (hr : Rel s ph)
    (ht : WTrack q tr ph) : PortsLow s := by
  apply portsLow_of_quiet hr
  cases ph with
  | wapb q' ws w es en =>
    obtain ⟨rfl, -⟩ := ht
    exact absurd hr.ok.1 hq
  | rapb => exact ht.elim
  | idle | wdata | wresp | rfetch | rbuf | rerr => exact fun _ => rfl

private theorem portsLow_read {q : Req P} {tr : List (Cycle P)} (hq : ¬ q.Legal) (hr : Rel s ph)
    (ht : RTrack q tr ph) : PortsLow s := by
  apply portsLow_of_quiet hr
  cases ph with
  | rapb q' ds en =>
    obtain ⟨rfl, -⟩ := ht
    exact absurd hr.ok.1 hq
  | wapb => exact ht.elim
  | idle | wdata | wresp | rfetch | rbuf | rerr => exact fun _ => rfl

end

section
variable {q : Req (contract idWidth)} {tr : List (Cycle (contract idWidth))} {s : State (contract idWidth)}
  {ph : Phase (contract idWidth)} {ws xs : List (WBeat (contract idWidth))} {es : List Bool}

/-- The W beats of a finished write. -/
private theorem finished_length {v : Bool} {bs : List (BBeat (contract idWidth))}
    (hok : (Phase.wresp q ws es v).Ok) (h : WSeen q tr ws xs es bs) :
    (wBeats tr).length = writeBeats q.len (wBeats tr) := by
  obtain ⟨⟨ws', w, rfl, hne⟩, hend, -⟩ := hok
  rw [h.w]
  exact length_eq_writeBeats hne hend

private theorem writeDrain_of_track (hq : ¬ q.Legal) (hr : Rel s ph) (ht : WTrack q tr ph) : WriteDrain q tr s := by
  have hok := hr.ok
  cases ph with
  | idle =>
    obtain ⟨ws, es, hfin, h⟩ := ht
    have hlen := finished_length hfin h
    have hb : bBeats tr = [⟨q.id, respDecerr⟩] := by rw [h.b, Req.bBeat, if_neg hq]
    exact ⟨hlen.le, fun hlt => absurd hlen (by omega), fun _ hnil => by simp [hb] at hnil, fun _ => ⟨hb, hlen⟩,
      fun _ => idleForNew_rel hr, fun _ _ => by simp [hb]⟩
  | wdata q' ws es =>
    obtain ⟨rfl, h⟩ := ht
    have hlt := length_lt_writeBeats hok.1
    rw [← h.w] at hlt
    exact ⟨hlt.le, fun _ => wready_rel hr, fun he => absurd he (by omega), fun hne => absurd h.b hne,
      fun hne => absurd h.b hne, fun i hi => by simp [reqTaken_busy hr rfl i] at hi⟩
  | wresp q' ws es v =>
    obtain ⟨rfl, h⟩ := ht
    have hlen := finished_length hok h
    refine ⟨hlen.le, fun hlt => absurd hlen (by omega), fun _ _ => ?_, fun hne => absurd h.b hne,
      fun hne => absurd h.b hne, fun i hi => by simp [reqTaken_busy hr rfl i] at hi⟩
    cases v with
    | true => exact Or.inl hr.bvalid
    | false => exact Or.inr fun i => (rel_posedge hr i).bvalid
  | wapb q' ws w es en =>
    obtain ⟨rfl, -⟩ := ht
    exact absurd hok.1 hq
  | rfetch | rapb | rbuf | rerr => exact ht.elim

private theorem readDrain_of_track (hq : ¬ q.Legal) (hr : Rel s ph) (ht : RTrack q tr ph) : ReadDrain q tr s := by
  have hok := hr.ok
  have hpad : ∀ {n}, RSeen tr [] (q.padding n) → (rBeats tr).length = n := by
    intro n h
    rw [h.r, Req.padding, List.length_map, List.length_range]
  cases ph with
  | idle =>
    rw [RTrack, if_neg hq] at ht
    have hlen : (rBeats tr).length = q.len.toNat + 1 := hpad ht
    exact ⟨hlen.le, by rw [hlen]; exact ht.r, fun hlt => absurd hlen (by omega), fun _ => idleForNew_rel hr,
      fun _ _ => hlen⟩
  | rerr q' n v =>
    obtain ⟨rfl, h⟩ := ht
    have hlen := hpad h
    have hle : n ≤ q'.len.toNat := hok.2
    refine ⟨by omega, by rw [hlen]; exact h.r, fun _ => ?_, fun he => absurd he (by omega),
      fun i hi => by simp [reqTaken_busy hr rfl i] at hi⟩
    cases v with
    | true => exact Or.inl hr.rvalid
    | false => exact Or.inr fun i => (rel_posedge hr i).rvalid
  | rfetch | rapb | rbuf =>
    obtain ⟨rfl, -⟩ := ht
    exact absurd hok.1 hq
  | wdata | wapb | wresp => exact ht.elim

end

/-- From the handshake of an unsupported request until the next request is accepted no port is selected, a write is
drained and a read is answered as the contract says. -/
theorem reject_drains {s : State (contract idWidth)} (hs : Reachable s) :
    (∀ a is, awHandshake s a = true → ¬ a.awReq.Supported →
      (∀ c ∈ (bridge _).trace (posedge s a) is, reqTaken c = false) →
      (∀ js, js <+: a :: is → PortsLow ((bridge _).run s js)) ∧
        WriteDrain a.awReq ((bridge _).trace s (a :: is)) ((bridge _).run s (a :: is))) ∧
    ∀ a is, arHandshake s a = true → ¬ a.arReq.Supported →
      (∀ c ∈ (bridge _).trace (posedge s a) is, reqTaken c = false) →
      (∀ js, js <+: a :: is → PortsLow ((bridge _).run s js)) ∧
        ReadDrain a.arReq ((bridge _).trace s (a :: is)) ((bridge _).run s (a :: is)) := by
  constructor
  · intro a is haw hsup hnext
    have hq := mt Req.legal_iff_supported.1 hsup
    constructor
    · intro js hjs
      rcases List.prefix_cons_iff.1 hjs with rfl | ⟨ks, rfl, hks⟩
      · exact portsLow_of_quiet (rel_of_aw hs haw).1 (fun _ => rfl)
      · obtain ⟨ph, hr, ht⟩ := write_track hs haw (fun c hc => hnext c (((bridge _).trace_mono hks _).subset hc))
        exact portsLow_write hq hr ht
    · obtain ⟨ph, hr, ht⟩ := write_track hs haw hnext
      exact writeDrain_of_track hq hr ht
  · intro a is har hsup hnext
    have hq := mt Req.legal_iff_supported.1 hsup
    constructor
    · intro js hjs
      rcases List.prefix_cons_iff.1 hjs with rfl | ⟨ks, rfl, hks⟩
      · exact portsLow_of_quiet (rel_of_ar hs har).1 (fun _ => rfl)
      · obtain ⟨ph, hr, ht⟩ := read_track hs har (fun c hc => hnext c (((bridge _).trace_mono hks _).subset hc))
        exact portsLow_read hq hr ht
    · obtain ⟨ph, hr, ht⟩ := read_track hs har hnext
      exact readDrain_of_track hq hr ht

/-- A write of two beats with `AWSIZE` 2, and a read of two beats from both sides of bit 31. -/
theorem reject_drains_two_beats :
    let r := In.ready (contract 4)
    let a := r.withAw ⟨5, 0x1000, 1, 0b010, 0b01, 0⟩
    let a' := r.withAr ⟨5, 0x7ffffff8, 1, 0b011, 0b01, 0⟩
    let is := [r.withW ⟨7, 0xff, false⟩, r.withW ⟨9, 0xff, true⟩, r, r]
    (WriteDrain a.awReq ((bridge _).trace (State.zero _) (a :: is)) ((bridge _).run (State.zero _) (a :: is))) ∧
      ReadDrain a'.arReq ((bridge _).trace (State.zero _) (a' :: [r, r, r, r]))
        ((bridge _).run (State.zero _) (a' :: [r, r, r, r])) :=
  ⟨((reject_drains (reachable_zero _)).1 _ _ (by decide) (by decide +kernel) (by decide +kernel)).2,
    ((reject_drains (reachable_zero _)).2 _ _ (by decide) (by decide +kernel) (by decide +kernel)).2⟩

end AxiApb.Burst
