import AxiApb.BurstTrace

/-!
# Progress of the burst bridge

A rank on the registers that stays as it is while the bridge waits for a partner and drops at every other edge
(`progress`): an active transaction is at most five edges for each of its beats, and two more, away from its end.
Between transactions a request is accepted at once if it is the only one, and two requests at a time block each
other for ever (`accepted_iff_alone`).
-/

namespace AxiApb.Burst

open Clocked

variable {P : Params}

/-- Port `x` is in the access phase of a transfer and its slave is not ready. -/
def slaveWaits (x : Bool) (c : Cycle P) : Bool := (c.2.apb x).psel && (c.2.apb x).penable && !c.1.pready x

/-- The bridge waits for a W beat, for a slave, for `BREADY` or for `RREADY`. -/
def waits (c : Cycle P) : Bool :=
  (c.2.wready && !c.1.wvalid) || slaveWaits false c || slaveWaits true c || (c.2.b.isSome && !c.1.bready) ||
    (c.2.r.isSome && !c.1.rready)

/-- The edges to go: three for each beat of a write and two for its response, five for each beat of a read, two for
each beat of an illegal read. -/
def rank (s : State P) : Nat :=
  if !s.txnActive then 0
  else if s.axiIsWrite then
    if s.bvalid then 1
    else if s.wDone && s.apbState == .idle then 2
    else 3 * (s.beatsTotal.toNat - s.beatIndex.toNat) + (if s.apbState == .idle then 2
      else if s.apbState == .setup then 1 else 0)
  else if s.txnDecerr then 2 * (s.beatsTotal.toNat - s.beatsSent.toNat) - (if s.rvalid then 1 else 0)
  else 5 * (s.beatsTotal.toNat - s.beatsSent.toNat) -
    (if s.rvalid then 4 else if s.rfifoValid then 3 else if s.apbState == .access then 2
      else if s.apbState == .setup then 1 else 0)

/-! ### The rank of a phase -/

def Phase.rank : Phase P → Nat
  | idle => 0
  | wdata q ws _ => 3 * (q.beats - ws.length) + 2
  | wapb q ws _ _ en => 3 * (q.beats - ws.length) + (if en then 0 else 1)
  | wresp _ _ _ v => if v then 1 else 2
  | rfetch q ds => 5 * (q.beats - ds.length)
  | rapb q ds en => 5 * (q.beats - ds.length) - (if en then 2 else 1)
  | rbuf q ds _ v => 5 * (q.beats - ds.length) - (if v then 4 else 3)
  | rerr q n v => 2 * (q.beats - n) - (if v then 1 else 0)

/-- What the phase waits for is missing. -/
def Phase.waits : Phase P → In P → Bool
  | wdata .., i => !i.wvalid
  | wapb q _ _ _ true, i => !i.pready q.port
  | wresp _ _ _ true, i => !i.bready
  | rapb q _ true, i => !i.pready q.port
  | rbuf _ _ _ true, i => !i.rready
  | rerr _ _ true, i => !i.rready
  | _, _ => false

theorem rank_rel {s : State P} {ph : Phase P} (h : Rel s ph) : rank s = ph.rank := by
  have ha := h.apbState
  have ht := h.txn
  have hb := h.bvalid
  have hr := h.rvalid
  have hok := h.ok
  cases ph with
  | idle => simp [rank, show s.txnActive = false from ht, Phase.rank]
  | wdata q ws es =>
    simp [rank, ht.active, ht.isWrite, hb, Phase.b, ht.ended, hok.1, ha, Phase.apbState, ht.total, ht.index, Phase.rank]
  | wapb q ws w es en =>
    cases en <;>
      simp [rank, ht.active, ht.isWrite, hb, Phase.b, ha, Phase.apbState, ht.total, ht.index, Phase.rank]
  | wresp q ws es v =>
    cases v <;> simp [rank, ht.active, ht.isWrite, hb, Phase.b, ht.ended, hok.2.1, ha, Phase.apbState, Phase.rank]
  | rfetch q ds =>
    simp [rank, ht.1.active, ht.1.isWrite, ht.1.decerr, hok.1, hr, Phase.r, ht.2, ha, Phase.apbState, ht.1.total,
      ht.1.sent, Phase.rank]
  | rapb q ds en =>
    cases en <;>
      simp [rank, ht.1.active, ht.1.isWrite, ht.1.decerr, hok.1, hr, Phase.r, ht.2, ha, Phase.apbState, ht.1.total,
        ht.1.sent, Phase.rank]
  | rbuf q ds d v =>
    cases v <;>
      simp [rank, ht.1.active, ht.1.isWrite, ht.1.decerr, hok.1, hr, Phase.r, ht.2.1, ht.1.total, ht.1.sent,
        Phase.rank]
  | rerr q n v =>
    cases v <;>
      simp [rank, ht.active, ht.isWrite, ht.decerr, hok.1, hr, Phase.r, ht.total, ht.sent, Phase.rank]

private theorem slaveWaits_quiet {ph : Phase P} (h : ∀ x, ph.apb x = .quiet) (x : Bool) (i : In P) :
    slaveWaits x (i, ph.out i) = false := by
  simp [slaveWaits, apb_out, h, PortView.quiet]

private theorem slaveWaits_drive {ph : Phase P} {q : Req P} {k : Ctrl P} {en : Bool}
    (h : ∀ x, ph.apb x = if x = q.port then ⟨true, en, some k⟩ else .quiet) (i : In P) :
    (slaveWaits false (i, ph.out i) || slaveWaits true (i, ph.out i)) = (en && !i.pready q.port) := by
  simp only [slaveWaits, apb_out, h]
  cases q.port <;> simp [PortView.quiet]

theorem waits_out (ph : Phase P) (i : In P) : waits (i, ph.out i) = ph.waits i := by
  have hout : waits (i, ph.out i) = ((ph.wready && !i.wvalid) ||
      (slaveWaits false (i, ph.out i) || slaveWaits true (i, ph.out i)) || (ph.b.isSome && !i.bready) ||
      (ph.r.isSome && !i.rready)) := by
    rw [waits, Bool.or_assoc (_ && _) (slaveWaits _ _)]
    rfl
  rw [hout]
  cases ph with
  | wapb q ws w es en =>
    rw [slaveWaits_drive (q := q) (k := q.writeCtrl ws.length w) (fun _ => rfl)]
    cases en <;> simp [Phase.wready, Phase.b, Phase.r, Phase.waits]
  | rapb q ds en =>
    rw [slaveWaits_drive (q := q) (k := q.readCtrl ds.length) (fun _ => rfl)]
    cases en <;> simp [Phase.wready, Phase.b, Phase.r, Phase.waits]
  | wresp _ _ _ v | rbuf _ _ _ v | rerr _ _ v =>
    rw [slaveWaits_quiet (fun _ => rfl), slaveWaits_quiet (fun _ => rfl)]
    cases v <;> simp [Phase.wready, Phase.b, Phase.r, Phase.waits]
  | idle | wdata | rfetch =>
    rw [slaveWaits_quiet (fun _ => rfl), slaveWaits_quiet (fun _ => rfl)]
    simp [Phase.wready, Phase.b, Phase.r, Phase.waits]

/-! ### One edge -/

section
variable {ph : Phase P} {i : In P}

/-- A phase that waits stays as it is. -/
theorem step_of_waits (h : ph.waits i = true) : ph.step i = ph := by
  cases ph with
  | idle => cases h
  | wdata q ws es =>
    have hv : i.wvalid = false := by simpa [Phase.waits] using h
    rw [Phase.step, hv]
    rfl
  | wapb q ws w es en =>
    cases en with
    | false => cases h
    | true =>
      have hp : i.pready q.port = false := by simpa [Phase.waits] using h
      rw [Phase.step, hp]
      rfl
  | wresp q ws es v =>
    cases v with
    | false => cases h
    | true =>
      have hb : i.bready = false := by simpa [Phase.waits] using h
      rw [Phase.step, hb]
      rfl
  | rfetch => cases h
  | rapb q ds en =>
    cases en with
    | false => cases h
    | true =>
      have hp : i.pready q.port = false := by simpa [Phase.waits] using h
      rw [Phase.step, hp]
      rfl
  | rbuf q ds d v =>
    cases v with
    | false => cases h
    | true =>
      have hr : i.rready = false := by simpa [Phase.waits] using h
      rw [Phase.step, hr]
      rfl
  | rerr q n v =>
    cases v with
    | false => cases h
    | true =>
      have hr : i.rready = false := by simpa [Phase.waits] using h
      rw [Phase.step, hr]
      rfl

/-- A phase that serves a request and does not wait comes nearer to its end. -/
theorem rank_step (hok : ph.Ok) (hidle : ph.isIdle = false) (h : ph.waits i = false) :
    (ph.step i).rank < ph.rank := by
  cases ph with
  | idle => cases hidle
  | wdata q ws es =>
    have hv : i.wvalid = true := by simpa [Phase.waits] using h
    have hlt : ws.length < q.beats := Nat.lt_succ_of_le (Req.wEnded_eq_false.1 hok.1).2
    rw [Phase.step, hv, if_pos rfl, Phase.takeW]
    split
    · simp [Phase.rank]
    · split
      · simp [Phase.rank]; omega
      · simp [Phase.rank]; omega
  | wapb q ws w es en =>
    have hlt : ws.length < q.beats := Nat.lt_succ_of_le (Req.wEnded_eq_false.1 hok.2.1).2
    cases en with
    | false => simp [Phase.step, Phase.rank]
    | true =>
      have hp : i.pready q.port = true := by simpa [Phase.waits] using h
      rw [Phase.step, hp, if_pos rfl, Phase.wDone]
      split
      · simp [Phase.rank]; omega
      · simp [Phase.rank]; omega
  | wresp q ws es v =>
    cases v with
    | false => simp [Phase.step, Phase.rank]
    | true =>
      have hb : i.bready = true := by simpa [Phase.waits] using h
      simp [Phase.step, hb, Phase.rank]
  | rfetch q ds =>
    have hle : ds.length ≤ q.len.toNat := hok.2
    simp [Phase.step, Phase.rank, Req.beats]
    omega
  | rapb q ds en =>
    have hle : ds.length ≤ q.len.toNat := hok.2
    cases en with
    | false =>
      simp [Phase.step, Phase.rank, Req.beats]
      omega
    | true =>
      have hp : i.pready q.port = true := by simpa [Phase.waits] using h
      simp [Phase.step, hp, Phase.rank, Req.beats]
      omega
  | rbuf q ds d v =>
    have hle : ds.length ≤ q.len.toNat := hok.2
    cases v with
    | false =>
      simp [Phase.step, Phase.rank, Req.beats]
      omega
    | true =>
      have hr : i.rready = true := by simpa [Phase.waits] using h
      rw [Phase.step, hr, if_pos rfl]
      split
      · simp [Phase.rank, Req.beats]; omega
      · simp [Phase.rank, Req.beats]; omega
  | rerr q n v =>
    have hle : n ≤ q.len.toNat := hok.2
    cases v with
    | false =>
      simp [Phase.step, Phase.rank, Req.beats]
      omega
    | true =>
      have hr : i.rready = true := by simpa [Phase.waits] using h
      rw [Phase.step, hr, if_pos rfl]
      split
      · simp [Phase.rank, Req.beats]; omega
      · simp [Phase.rank, Req.beats]; omega

end

/-! ### Runs -/

theorem txnActive_rel {s : State P} {ph : Phase P} (h : Rel s ph) : s.txnActive = !ph.isIdle := by
  have ht := h.txn
  cases ph with
  | idle => exact ht
  | wdata | wapb | wresp | rerr => exact ht.active
  | rfetch | rapb | rbuf => exact ht.1.active

/-- The request `q` is accepted at this edge. -/
def Accepts (s : State P) (a : In P) (q : Req P) : Prop :=
  (awHandshake s a = true ∧ q = a.awReq) ∨ (arHandshake s a = true ∧ q = a.arReq)

theorem rank_accepts {s : State P} {a : In P} {q : Req P} (hs : Reachable s) (h : Accepts s a q) :
    rank (posedge s a) ≤ 5 * (q.len.toNat + 1) + 2 := by
  rcases h with ⟨haw, rfl⟩ | ⟨har, rfl⟩
  · rw [rank_rel (rel_of_aw hs haw).2]
    simp [Phase.rank, Req.beats]
  · rw [rank_rel (rel_of_ar hs har).2, Phase.startRead]
    split
    · simp [Phase.rank, Req.beats]
    · simp [Phase.rank, Req.beats]
      omega

theorem rank_of_waits {s : State P} {i : In P} (hs : Reachable s) (h : waits (i, out s i) = true) :
    rank (posedge s i) = rank s := by
  obtain ⟨ph, hr⟩ := hs.rel
  rw [out_rel hr, waits_out] at h
  rw [rank_rel hr, rank_rel (rel_posedge hr i), step_of_waits h]

theorem rank_of_go {s : State P} {i : In P} (hs : Reachable s) (hact : s.txnActive = true)
    (h : waits (i, out s i) = false) : rank (posedge s i) < rank s := by
  obtain ⟨ph, hr⟩ := hs.rel
  rw [out_rel hr, waits_out] at h
  rw [txnActive_rel hr] at hact
  rw [rank_rel hr, rank_rel (rel_posedge hr i)]
  exact rank_step hr.ok (by simpa using hact) h

/-- Partners that are ready and a W beat that is offered leave nothing to wait for. -/
theorem exists_go (s : State P) : ∃ i, waits (i, out s i) = false :=
  ⟨{ In.ready P with wvalid := true }, by simp [waits, slaveWaits, In.ready, In.pready]⟩

/-- An active transaction has an edge to go. -/
theorem rank_pos {s : State P} (hs : Reachable s) (hact : s.txnActive = true) : 0 < rank s := by
  obtain ⟨i, hi⟩ := exists_go s
  exact Nat.zero_lt_of_lt (rank_of_go hs hact hi)

/-- While a transaction is active there are fewer edges that do not wait than its rank says. -/
theorem count_lt_rank {s : State P} {is : List (In P)} (hs : Reachable s)
    (hact : ∀ js, js <+: is → ((bridge P).run s js).txnActive = true) :
    ((bridge P).trace s is).countP (fun c => !waits c) < rank s := by
  have hrun : rank ((bridge P).run s is) + ((bridge P).trace s is).countP (fun c => !waits c) ≤ rank s :=
    Machine.rank_rule (I := Reachable) (fun s i h => Reachable.posedge h i)
      (fun s i h _ hw => (rank_of_waits h hw).le) (fun s i h ha hw _ => rank_of_go h ha hw) hs hact
  -- the state after `is` is active, so its rank is not used up
  have hpos := rank_pos (hs.run is) (hact is List.prefix_rfl)
  exact Nat.lt_of_lt_of_le (Nat.lt_add_of_pos_left hpos) hrun

/-- The rank of a request of `N` beats starts at `5 * N + 2` at most; it is kept while the bridge waits and drops at
every other edge that does not end the transaction; the bridge never waits for ever, and the transaction ends within
`5 * N + 2` edges that do not wait. -/
theorem progress (P : Params) :
    (∀ (s : State P) a q, Reachable s → Accepts s a q → rank (posedge s a) ≤ 5 * (q.len.toNat + 1) + 2) ∧
      (∀ (s : State P) i, Reachable s → s.txnActive = true → waits (i, out s i) = true →
        rank (posedge s i) = rank s) ∧
      (∀ (s : State P) i, Reachable s → s.txnActive = true → waits (i, out s i) = false →
        rank (posedge s i) < rank s ∨ (posedge s i).txnActive = false) ∧
      (∀ s : State P, Reachable s → s.txnActive = true → ∃ i, waits (i, out s i) = false) ∧
      ∀ (s : State P) a q is, Reachable s → Accepts s a q →
        (∀ js, js <+: is → ((bridge P).run (posedge s a) js).txnActive = true) →
        ((bridge P).trace (posedge s a) is).countP (fun c => !waits c) < 5 * (q.len.toNat + 1) + 2 := by
  refine ⟨fun s a q hs h => rank_accepts hs h, fun s i hs _ h => rank_of_waits hs h,
    fun s i hs ha h => Or.inl (rank_of_go hs ha h), fun s _ _ => exists_go s, ?_⟩
  intro s a q is hs h hact
  exact Nat.lt_of_lt_of_le (count_lt_rank (hs.posedge a) hact) (rank_accepts hs h)

/-- A read of one beat is still active after four edges that do not wait. -/
theorem progress_one_beat :
    let r := In.ready (contract 4)
    let a := r.withAr ⟨5, 0x1000, 0, 0b011, 0b01, 0⟩
    ((bridge _).trace (posedge (State.zero _) a) [r, r, r, r]).countP (fun c => !waits c) < 5 * (0 + 1) + 2 :=
  (progress (contract 4)).2.2.2.2 (State.zero _) _ ⟨5, 0x1000, 0, 0b011, 0b01, 0⟩ _ (reachable_zero _)
    (Or.inr ⟨by decide, rfl⟩) (by simp only [← List.mem_inits]; decide +kernel)

/-! ### Offered requests -/

/-- No transaction in flight and no response outstanding. -/
def Free (s : State P) : Prop := s.txnActive = false ∧ s.bvalid = false ∧ s.rvalid = false

theorem rel_of_free {s : State P} (hs : Reachable s) (h : Free s) : Rel s .idle := by
  obtain ⟨ph, hr⟩ := hs.rel
  have hidle : ph.isIdle = true := by simpa [txnActive_rel hr] using h.1
  cases ph with
  | idle => exact hr
  | _ => cases hidle

/-- While both requests are offered, neither is accepted. -/
theorem blocked {is : List (In P)} (h : ∀ i ∈ is, i.awvalid = true ∧ i.arvalid = true) :
    ∀ c ∈ (engine P).trace .idle is, reqTaken c = false := by
  refine Machine.trace_invariant (I := fun ph => ph = .idle) (fun ph i hi hph => ?_) rfl h
  subst hph
  constructor
  · show reqTaken (i, (Phase.idle : Phase P).out i) = false
    rw [reqTaken_out, hi.1, hi.2]
    rfl
  · show (Phase.idle : Phase P).step i = .idle
    rw [Phase.step, hi.1, hi.2]
    rfl

/-- Between transactions an offered request is accepted at once if it is the only one; while both are offered none is
ever accepted. -/
theorem accepted_iff_alone {s : State P} (hs : Reachable s) (hfree : Free s) :
    (∀ i : In P, reqTaken (i, out s i) = true ↔ i.awvalid ≠ i.arvalid) ∧
      ∀ is, (∀ i ∈ is, i.awvalid = true ∧ i.arvalid = true) → ∀ c ∈ (bridge P).trace s is, reqTaken c = false := by
  have hr := rel_of_free hs hfree
  constructor
  · intro i
    rw [out_rel hr, reqTaken_out]
    simp [Phase.isIdle]
  · intro is his
    rw [trace_eq hr]
    exact blocked his

theorem accepted_iff_alone_zero :
    (∀ i, reqTaken (i, out (State.zero (contract 4)) i) = true ↔ i.awvalid ≠ i.arvalid) ∧
      ∀ is, (∀ i ∈ is, i.awvalid = true ∧ i.arvalid = true) →
        ∀ c ∈ (bridge (contract 4)).trace (State.zero _) is, reqTaken c = false :=
  accepted_iff_alone (reachable_zero _) ⟨rfl, rfl, rfl⟩

/-- A write and a read request that are raised together and held from reset on. -/
theorem held_requests_not_accepted :
    ¬ ∀ (s : State (contract 4)) (i : In (contract 4)), Reachable s → Free s → (i.awvalid || i.arvalid) = true →
      ∃ n, ∃ c ∈ (bridge _).trace s (List.replicate n i), reqTaken c = true := by
  intro h
  let q : Req (contract 4) := ⟨5, 0x1000, 0, 0b011, 0b01, 0⟩
  obtain ⟨n, c, hc, htaken⟩ :=
    h (State.zero _) (((In.ready _).withAw q).withAr q) (reachable_zero _) ⟨rfl, rfl, rfl⟩ rfl
  rw [trace_eq (rel_of_free (reachable_zero _) ⟨rfl, rfl, rfl⟩)] at hc
  have hboth : ∀ i ∈ List.replicate n (((In.ready (contract 4)).withAw q).withAr q),
      i.awvalid = true ∧ i.arvalid = true := by
    intro i hi
    rw [List.eq_of_mem_replicate hi]
    exact ⟨rfl, rfl⟩
  rw [blocked hboth c hc] at htaken
  cases htaken

end AxiApb.Burst
