import AxiApb.BurstProgress

/-!
# How long a transaction of the burst bridge takes

The rank bounds the edges to go.  Counted from the other end they are exact: apart from the cycles in which it waits for a
partner, the bridge spends three cycles on each beat of a write and two on the response, one and two if the write is
rejected, five on each beat of a read, and two if the read is rejected (`latency_exact`).
-/

namespace AxiApb.Burst

open Clocked

variable {P : Params}

/-- The cycles that a beat of a write takes, and a beat of a read. -/
def writeBeatCycles (q : Req P) : Nat := if q.Legal then 3 else 1
def readBeatCycles (q : Req P) : Nat := if q.Legal then 5 else 2

namespace Phase

/-- The cycles without waiting since the address handshake. -/
def spent : Phase P → Nat
  | idle => 0
  | wdata q ws _ => writeBeatCycles q * ws.length
  | wapb _ ws _ _ en => 3 * ws.length + (if en then 2 else 1)
  | wresp q ws _ v => writeBeatCycles q * ws.length + (if v then 1 else 0)
  | rfetch _ ds => 5 * ds.length
  | rapb _ ds en => 5 * ds.length + (if en then 2 else 1)
  | rbuf _ ds _ v => 5 * ds.length + (if v then 4 else 3)
  | rerr _ n v => 2 * n + (if v then 1 else 0)

/-- The W beats that were accepted. -/
def accepted : Phase P → Nat
  | wdata _ ws _ => ws.length
  | wapb _ ws _ _ _ => ws.length + 1
  | wresp _ ws _ _ => ws.length
  | _ => 0

/-- The phase serves the write `q`, or the read `q`. -/
def Writes (q : Req P) : Phase P → Prop
  | wdata q' .. | wapb q' .. | wresp q' .. => q' = q
  | _ => False

def Reads (q : Req P) : Phase P → Prop
  | rfetch q' .. | rapb q' .. | rbuf q' .. | rerr q' .. => q' = q
  | _ => False

end Phase

/-! ### One cycle -/

section
variable {q : Req P} {ph : Phase P} {i : In P}

/-- A waiting cycle leaves the write as it is, and no W beat is accepted in it. -/
private theorem write_waits (h : ph.Writes q) (hw : ph.waits i = true) :
    (i.wvalid && ph.wready) = false ∧ (i.bready && ph.b.isSome) = false := by
  cases ph with
  | wdata q' ws es =>
    have hv : i.wvalid = false := by simpa [Phase.waits] using hw
    simp [hv, Phase.b]
  | wapb q' ws w es en => simp [Phase.wready, Phase.b]
  | wresp q' ws es v =>
    rcases v with _ | _
    · cases hw
    · have hb : i.bready = false := by simpa [Phase.waits] using hw
      simp [hb, Phase.wready]
  | idle | rfetch | rapb | rbuf | rerr => exact h.elim

/-- A cycle of a write that does not wait, up to its response. -/
private theorem write_goes (hok : ph.Ok) (h : ph.Writes q) (hw : ph.waits i = false)
    (hb : (i.bready && ph.b.isSome) = false) :
    (ph.step i).Writes q ∧ (ph.step i).spent = ph.spent + 1 ∧
      (ph.step i).accepted = ph.accepted + if i.wvalid && ph.wready then 1 else 0 := by
  cases ph with
  | wdata q' ws es =>
    obtain rfl : q' = q := h
    have hv : i.wvalid = true := by simpa [Phase.waits] using hw
    rw [Phase.step, if_pos hv, Phase.takeW]
    by_cases hq : q'.Legal
    · rw [if_pos hq]
      simp [Phase.Writes, Phase.spent, Phase.accepted, Phase.wready, writeBeatCycles, hq, hv]
    · rw [if_neg hq]
      split
      · simp [Phase.Writes, Phase.spent, Phase.accepted, Phase.wready, writeBeatCycles, hq, hv]
      · simp [Phase.Writes, Phase.spent, Phase.accepted, Phase.wready, writeBeatCycles, hq, hv]
  | wapb q' ws w es en =>
    obtain rfl : q' = q := h
    rcases en with _ | _
    · simp [Phase.step, Phase.Writes, Phase.spent, Phase.accepted, Phase.wready]
    · have hp : i.pready q'.port = true := by simpa [Phase.waits] using hw
      rw [Phase.step, if_pos hp, Phase.wDone]
      split
      · simp [Phase.Writes, Phase.spent, Phase.accepted, Phase.wready, writeBeatCycles, hok.1]
        omega
      · simp [Phase.Writes, Phase.spent, Phase.accepted, Phase.wready, writeBeatCycles, hok.1]
        omega
  | wresp q' ws es v =>
    obtain rfl : q' = q := h
    rcases v with _ | _
    · simp [Phase.step, Phase.Writes, Phase.spent, Phase.accepted, Phase.wready]
    · have hb' : i.bready = true := by simpa [Phase.waits] using hw
      simp [hb', Phase.b] at hb
  | idle | rfetch | rapb | rbuf | rerr => exact h.elim

/-- A cycle of a read that does not wait, up to its last beat. -/
private theorem read_goes (hok : ph.Ok) (h : ph.Reads q) (hw : ph.waits i = false)
    (hr : ∀ r ∈ if i.rready then ph.r.toList else [], r.rlast = false) :
    (ph.step i).Reads q ∧ (ph.step i).spent = ph.spent + 1 := by
  cases ph with
  | rfetch q' ds => exact ⟨h, rfl⟩
  | rapb q' ds en =>
    rcases en with _ | _
    · exact ⟨h, rfl⟩
    · have hp : i.pready q'.port = true := by simpa [Phase.waits] using hw
      rw [Phase.step, if_pos hp]
      exact ⟨h, rfl⟩
  | rbuf q' ds d v =>
    rcases v with _ | _
    · exact ⟨h, rfl⟩
    · have hi : i.rready = true := by simpa [Phase.waits] using hw
      have hlast : (ds.length == q'.len.toNat) = false := by simpa [hi, Phase.r, Req.rBeat] using hr
      rw [Phase.step, if_pos hi, hlast]
      exact ⟨h, by simp [Phase.spent]; omega⟩
  | rerr q' n v =>
    rcases v with _ | _
    · exact ⟨h, rfl⟩
    · have hi : i.rready = true := by simpa [Phase.waits] using hw
      have hlast : (n == q'.len.toNat) = false := by simpa [hi, Phase.r, Req.errBeat] using hr
      rw [Phase.step, if_pos hi, hlast]
      exact ⟨h, by simp [Phase.spent]; omega⟩
  | idle | wdata | wapb | wresp => exact h.elim

end

/-! ### Runs -/

/-- The cycles of `tr` that do not wait. -/
def working (tr : List (Cycle P)) : Nat := tr.countP fun c => !waits c

theorem working_concat (tr : List (Cycle P)) (ph : Phase P) (i : In P) :
    working (tr ++ [(i, ph.out i)]) = working tr + if ph.waits i then 0 else 1 := by
  rw [working, List.countP_append, List.countP_singleton, waits_out]
  cases ph.waits i <;> rfl

theorem length_eq_working (tr : List (Cycle P)) : tr.length = tr.countP waits + working tr := by
  rw [List.length_eq_countP_add_countP (p := waits)]
  simp [working]

/-- What the cycles `tr` since the AW handshake, or since the AR handshake, were spent on. -/
structure WriteCount (q : Req P) (tr : List (Cycle P)) (ph : Phase P) : Prop where
  ok : ph.Ok
  serves : ph.Writes q
  beats : (wBeats tr).length = ph.accepted
  cycles : working tr = ph.spent

structure ReadCount (q : Req P) (tr : List (Cycle P)) (ph : Phase P) : Prop where
  ok : ph.Ok
  serves : ph.Reads q
  cycles : working tr = ph.spent

section
variable {q : Req P} {tr : List (Cycle P)} {ph : Phase P} {i : In P}

private theorem length_wTaken (ph : Phase P) (i : In P) :
    (wTaken (i, ph.out i)).length = if i.wvalid && ph.wready then 1 else 0 := by
  rw [wTaken_out]
  split <;> rfl

private theorem WriteCount.step (h : WriteCount q tr ph) (hb : bTaken (i, ph.out i) = []) :
    WriteCount q (tr ++ [(i, ph.out i)]) (ph.step i) := by
  have hquiet : (i.bready && ph.b.isSome) = false := by
    rw [bTaken_out] at hb
    rcases hr : i.bready with _ | _
    · rfl
    · rw [hr, if_pos rfl, Option.toList_eq_nil_iff] at hb
      rw [hb]
      rfl
  have hlen : (wBeats (tr ++ [(i, ph.out i)])).length = ph.accepted + if i.wvalid && ph.wready then 1 else 0 := by
    rw [wBeats_concat, List.length_append, h.beats, length_wTaken]
  rcases hw : ph.waits i with _ | _
  · obtain ⟨hserves, hspent, hacc⟩ := write_goes h.ok h.serves hw hquiet
    refine ⟨ok_step h.ok i, hserves, by rw [hlen, hacc], ?_⟩
    rw [working_concat, hw, h.cycles, hspent]
    rfl
  · have hstay := step_of_waits hw
    have hnone := (write_waits h.serves hw).1
    rw [hstay]
    refine ⟨h.ok, h.serves, by rw [hlen, hnone]; rfl, ?_⟩
    rw [working_concat, hw, h.cycles]
    rfl

private theorem ReadCount.step (h : ReadCount q tr ph) (hr : ∀ r ∈ rTaken (i, ph.out i), r.rlast = false) :
    ReadCount q (tr ++ [(i, ph.out i)]) (ph.step i) := by
  rcases hw : ph.waits i with _ | _
  · obtain ⟨hserves, hspent⟩ := read_goes h.ok h.serves hw hr
    refine ⟨ok_step h.ok i, hserves, ?_⟩
    rw [working_concat, hw, h.cycles, hspent]
    rfl
  · rw [step_of_waits hw]
    refine ⟨h.ok, h.serves, ?_⟩
    rw [working_concat, hw, h.cycles]
    rfl

/-- The cycle of the response. -/
private theorem write_last (h : WriteCount q tr ph) (hb : bTaken (i, ph.out i) ≠ []) :
    working (tr ++ [(i, ph.out i)]) = writeBeatCycles q * (wBeats (tr ++ [(i, ph.out i)])).length + 2 := by
  obtain ⟨hok, hserves, hbeats, hcycles⟩ := h
  rw [bTaken_out] at hb
  cases ph with
  | wresp q' ws es v =>
    obtain rfl : q' = q := hserves
    rcases v with _ | _
    · simp [Phase.b] at hb
    · have hi : i.bready = true := by
        by_contra hne
        simp [hne] at hb
      have hw : (Phase.wresp q' ws es true).waits i = false := by simp [Phase.waits, hi]
      have hnone : wTaken (i, (Phase.wresp q' ws es true).out i) = [] := by simp [wTaken_out, Phase.wready]
      rw [working_concat, hw, hcycles, wBeats_concat, hnone, List.append_nil, hbeats]
      rfl
  | idle | wdata | wapb | rfetch | rapb | rbuf | rerr => simp [Phase.b] at hb

/-- The cycle of the last R beat. -/
private theorem read_last (h : ReadCount q tr ph) (hr : ∃ r ∈ rTaken (i, ph.out i), r.rlast = true) :
    working (tr ++ [(i, ph.out i)]) = readBeatCycles q * q.beats := by
  obtain ⟨hok, hserves, hcycles⟩ := h
  rw [rTaken_out] at hr
  have hi : i.rready = true := by
    by_contra hne
    simp [hne] at hr
  rw [if_pos hi] at hr
  rw [working_concat, hcycles]
  cases ph with
  | rbuf q' ds d v =>
    obtain rfl : q' = q := hserves
    rcases v with _ | _
    · simp [Phase.r] at hr
    · have hlen : ds.length = q'.len.toNat := by simpa [Phase.r, Req.rBeat] using hr
      simp [Phase.waits, hi, Phase.spent, readBeatCycles, hok.1, Req.beats, hlen]
      omega
  | rerr q' n v =>
    obtain rfl : q' = q := hserves
    rcases v with _ | _
    · simp [Phase.r] at hr
    · have hlen : n = q'.len.toNat := by simpa [Phase.r, Req.errBeat] using hr
      simp [Phase.waits, hi, Phase.spent, readBeatCycles, hok.1, Req.beats, hlen]
      omega
  | idle | wdata | wapb | wresp | rfetch | rapb => simp [Phase.r] at hr

end

section
variable {s : State P} {a b : In P} {is : List (In P)}

private theorem trace_last {ph : Phase P} (h : Rel (posedge s a) ph) (is : List (In P)) (b : In P) :
    (bridge P).trace (posedge s a) (is ++ [b]) =
        (engine P).trace ph is ++ [(b, ((engine P).run ph is).out b)] ∧
      out ((bridge P).run s (a :: is)) b = ((engine P).run ph is).out b := by
  constructor
  · rw [trace_eq h, Machine.trace_concat]
    rfl
  · exact out_rel (rel_run h is) b

/-- A write of `n` beats is answered after three cycles for each of them and two more, a rejected one after one cycle for
each of them and two more. -/
private theorem write_latency (hs : Reachable s) (haw : awHandshake s a = true)
    (hopen : ∀ c ∈ (bridge P).trace (posedge s a) is, bTaken c = [])
    (hb : bTaken (b, out ((bridge P).run s (a :: is)) b) ≠ []) :
    working ((bridge P).trace (posedge s a) (is ++ [b])) =
      writeBeatCycles a.awReq * (wBeats ((bridge P).trace (posedge s a) (is ++ [b]))).length + 2 := by
  obtain ⟨-, h1⟩ := rel_of_aw hs haw
  obtain ⟨htr, hout⟩ := trace_last h1 is b
  rw [trace_eq h1] at hopen
  rw [hout] at hb
  have hstart : WriteCount a.awReq [] (.wdata a.awReq [] []) := ⟨h1.ok, rfl, rfl, by simp [working, Phase.spent]⟩
  have hrun := Machine.track (M := engine P) (I := WriteCount a.awReq) (fun tr ph i h hc => h.step hc) hstart hopen
  rw [List.nil_append] at hrun
  rw [htr]
  exact write_last hrun hb

/-- A read of `n` beats is answered after five cycles for each of them, a rejected one after two for each of them. -/
private theorem read_latency (hs : Reachable s) (har : arHandshake s a = true)
    (hopen : ∀ c ∈ (bridge P).trace (posedge s a) is, ∀ r ∈ rTaken c, r.rlast = false)
    (hr : ∃ r ∈ rTaken (b, out ((bridge P).run s (a :: is)) b), r.rlast = true) :
    working ((bridge P).trace (posedge s a) (is ++ [b])) = readBeatCycles a.arReq * a.arReq.beats := by
  obtain ⟨-, h1⟩ := rel_of_ar hs har
  obtain ⟨htr, hout⟩ := trace_last h1 is b
  rw [trace_eq h1] at hopen
  rw [hout] at hr
  have hstart : ReadCount a.arReq [] (.startRead a.arReq) := by
    refine ⟨h1.ok, ?_, ?_⟩
    · unfold Phase.startRead
      split <;> rfl
    · unfold Phase.startRead
      split <;> rfl
  have hrun := Machine.track (M := engine P) (I := ReadCount a.arReq) (fun tr ph i h hc => h.step hc) hstart hopen
  rw [List.nil_append] at hrun
  rw [htr]
  exact read_last hrun hr

end

/-- The cycles from an address handshake to the last response handshake, this one included: those in which the bridge
waits, and beside them `3 * n + 2` for a write of `n` beats, `n + 2` for a rejected one, `5 * n` for a read and `2 * n` for
a rejected one. -/
theorem latency_exact (P : Params) :
    (∀ (s : State P) a is b, Reachable s → awHandshake s a = true →
        (∀ c ∈ (bridge P).trace (posedge s a) is, bTaken c = []) →
        bTaken (b, out ((bridge P).run s (a :: is)) b) ≠ [] →
        let tr := (bridge P).trace (posedge s a) (is ++ [b])
        tr.length = tr.countP waits + ((if a.awReq.Legal then 3 else 1) * (wBeats tr).length + 2)) ∧
      ∀ (s : State P) a is b, Reachable s → arHandshake s a = true →
        (∀ c ∈ (bridge P).trace (posedge s a) is, ∀ r ∈ rTaken c, r.rlast = false) →
        (∃ r ∈ rTaken (b, out ((bridge P).run s (a :: is)) b), r.rlast = true) →
        let tr := (bridge P).trace (posedge s a) (is ++ [b])
        tr.length = tr.countP waits + (if a.arReq.Legal then 5 else 2) * a.arReq.beats := by
  constructor
  · intro s a is b hs haw hopen hb tr
    rw [length_eq_working, write_latency hs haw hopen hb]
    rfl
  · intro s a is b hs har hopen hr tr
    rw [length_eq_working, read_latency hs har hopen hr]
    rfl

/-- A read of two beats whose first transfer is held up for one cycle: 11 cycles. -/
theorem latency_exact_two_beats :
    let r := In.ready (contract 4)
    let a := r.withAr ⟨5, 0x1000, 1, 0b011, 0b01, 0b010⟩
    let is := [r, r, { r with pready0 := false }, r, r, r, r, r, r, r]
    let tr := (bridge _).trace (posedge (State.zero _) a) (is ++ [r])
    tr.length = 11 ∧ tr.length = tr.countP waits + (if a.arReq.Legal then 5 else 2) * a.arReq.beats :=
  ⟨by decide, (latency_exact (contract 4)).2 (State.zero _) _ _ _ (reachable_zero _) (by decide) (by decide +kernel)
    (by decide +kernel)⟩

end AxiApb.Burst
