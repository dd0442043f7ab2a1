import AxiApb.ScoreboardQueues

/-!
# What the scoreboard accepts

Of a predicted and an observed write the scoreboard compares the ports, the low half of `PADDR` and the bytes that both
strobes enable.  `PSTRB` itself is not compared, nor is the high half of `PADDR`, and a run with writes that are not
the predicted ones is accepted just if they differ there, or if the counter of the mismatches has come round to 0
(`accepts_agreeing`).
-/

namespace AxiApb

namespace Scoreboard

variable {c : Cfg} {s : State} {p : Bool} {cs : List Call}

/-- The calls with writes that the bridge should carry out and has answered with `OKAY`. -/
def LegalOkay (c : Cfg) (cs : List Call) : Prop :=
  ∀ k ∈ cs, match k with
    | .axiWr t => awIllegal c t = false ∧ t.bresp = 0b00#2
    | .axiRd _ => False
    | .apb .. => True

/-- No mismatch is counted, and `report_phase` does not find one either. -/
def Accepted (c : Cfg) (s : State) : Prop :=
  c.hasScoreboard = true ∧ s.mismatch = 0 ∧ (reportPhase c s).mismatch = 0

instance (c : Cfg) (s : State) : Decidable (Accepted c s) := inferInstanceAs (Decidable (_ ∧ _ ∧ _))

/-- The observed write is the predicted one, as far as `WSTRB` enables its bytes. -/
structure Agree (pred obs : ApbTr) : Prop where
  paddr : obs.paddr = pred.paddr
  pstrb : obs.pstrb = pred.pstrb
  bytes : ∀ i < 8, pred.pstrb.getLsbD i = true →
    obs.pwdata.extractLsb' (8 * i) 8 = pred.pwdata.extractLsb' (8 * i) 8

/-- As many writes as predicted, a number of failed comparisons that the counter does not show, and a write with other
strobes or with a high address, or one whose comparison has failed in address or data. -/
structure Overlooked (c : Cfg) (cs : List Call) : Prop where
  enabled : c.hasScoreboard = true
  count : ∀ p, (observed cs p).length = (predicted c cs p).length
  no_reads : ∀ p, observedReads cs p = []
  uncounted : 2 ^ 32 ∣ axiErrors c cs +
    (((pairsOf c cs false).map (wrDiffs c false)).sum + ((pairsOf c cs true).map (wrDiffs c true)).sum)
  differs : ∃ p, ∃ x ∈ pairsOf c cs p, x.2.pstrb ≠ x.1.pstrb ∨ x.2.paddr.extractLsb' 32 32 ≠ 0#32 ∨
    x.1.paddr.setWidth 32 ≠ x.2.paddr.setWidth 32 ∨
    byteMatch x.1.pwdata x.1.pstrb x.2.pwdata x.2.pstrb c.dataWidth = false

/-! ### Acceptance -/

theorem LegalOkay.no_read (h : LegalOkay c cs) : ∀ k ∈ cs, k.isAxiRd = false := by
  intro k hk
  have := h k hk
  cases k with
  | axiWr | apb => rfl
  | axiRd => exact this.elim

/-- `report_phase` finds the queues empty. -/
theorem accepted_iff : Accepted c s ↔ c.hasScoreboard = true ∧ s.mismatch = 0 ∧ s.Idle := by
  refine and_congr_right fun hc => and_congr_right fun hm => ?_
  have hcheck : ∀ wr rd : Bool, ((s.check wr).check rd).mismatch = 0 ↔ wr = true ∧ rd = true := by
    intro wr rd
    cases wr <;> cases rd <;> simp [State.check, State.error, hm]
  have hkeep : ∀ wr, (s.check wr).predRd = s.predRd ∧ (s.check wr).bufRdObs = s.bufRdObs := by
    intro wr
    cases wr <;> exact ⟨rfl, rfl⟩
  rw [reportPhase, hc, if_neg (by decide)]
  simp only [hkeep, hcheck]
  simp only [Bool.and_eq_true, beq_iff_eq, List.length_eq_zero_iff, State.Idle, Bool.forall_bool]
  tauto

private theorem ofNat_eq_zero_iff (n : Nat) : BitVec.ofNat 32 n = (0 : BitVec 32) ↔ 2 ^ 32 ∣ n := by
  rw [← BitVec.toNat_inj, BitVec.toNat_ofNat, Nat.dvd_iff_mod_eq_zero]
  rfl

/-- What is accepted, said of the calls. -/
theorem accepted_after_iff (hcs : ∀ k ∈ cs, k.isAxiRd = false) : Accepted c (after c cs) ↔
    c.hasScoreboard = true ∧ (∀ p, (observed cs p).length = (predicted c cs p).length) ∧
      (∀ p, observedReads cs p = []) ∧
      2 ^ 32 ∣ axiErrors c cs +
        (((pairsOf c cs false).map (wrDiffs c false)).sum + ((pairsOf c cs true).map (wrDiffs c true)).sum) := by
  rw [accepted_iff]
  refine and_congr_right fun hc => ?_
  obtain ⟨hs, h⟩ := tracks_after hc hcs
  have hidle : (after c cs).Idle ↔
      (∀ p, (observed cs p).length = (predicted c cs p).length) ∧ ∀ p, observedReads cs p = [] := by
    unfold State.Idle
    rw [← forall_and]
    refine forall_congr' fun p => ?_
    rw [h.paired.left_eq, h.paired.right_eq, h.predRd, h.bufRd, List.drop_eq_nil_iff, List.drop_eq_nil_iff]
    constructor
    · rintro ⟨hl, -, hr, hreads⟩
      exact ⟨le_antisymm hr hl, hreads⟩
    · rintro ⟨heq, hreads⟩
      exact ⟨heq.ge, rfl, heq.le, hreads⟩
  rw [hidle, h.mismatch_eq, ofNat_eq_zero_iff]
  tauto

/-! ### Agreement -/

theorem byteMatch_iff {we wo : BitVec 64} {spe spo : BitVec 8} : byteMatch we spe wo spo 64 = true ↔
    ∀ i < 8, spe.getLsbD i = true → spo.getLsbD i = true → we.extractLsb' (8 * i) 8 = wo.extractLsb' (8 * i) 8 := by
  have hnb : ((64 : BitVec 32).toInt.tdiv 8).toNat = 8 := by decide
  rw [byteMatch]
  simp only [hnb, List.all_eq_true, List.mem_range]
  refine forall₂_congr fun i _ => ?_
  cases spe.getLsbD i <;> cases spo.getLsbD i <;> simp

private theorem eq_iff_halves (a b : BitVec 64) :
    a = b ↔ a.setWidth 32 = b.setWidth 32 ∧ a.extractLsb' 32 32 = b.extractLsb' 32 32 := by
  refine ⟨fun h => h ▸ ⟨rfl, rfl⟩, fun ⟨hlo, hhi⟩ => ?_⟩
  have hlo' := congrArg BitVec.toNat hlo
  have hhi' := congrArg BitVec.toNat hhi
  rw [BitVec.toNat_setWidth, BitVec.toNat_setWidth] at hlo'
  rw [BitVec.extractLsb'_toNat, BitVec.extractLsb'_toNat, Nat.shiftRight_eq_div_pow, Nat.shiftRight_eq_div_pow] at hhi'
  apply BitVec.eq_of_toNat_eq
  have ha := a.isLt
  have hb := b.isLt
  omega

private theorem extractLsb'_high (a : BitVec 32) : (a.setWidth 64).extractLsb' 32 32 = 0#32 := by
  have ha := a.isLt
  apply BitVec.eq_of_toNat_eq
  rw [BitVec.extractLsb'_toNat, Nat.shiftRight_eq_div_pow, BitVec.toNat_setWidth, BitVec.toNat_ofNat]
  omega

/-- A predicted address has 32 bits. -/
theorem predicted_high {pred : ApbTr} (h : pred ∈ predicted c cs p) : pred.paddr.extractLsb' 32 32 = 0#32 := by
  obtain ⟨k, -, hk⟩ := List.mem_flatMap.1 (Pairing.mem_lane.1 h)
  have hpredict : ∀ t n, (p, pred) ∈ predictions c t n → pred.paddr.extractLsb' 32 32 = 0#32 := by
    intro t n hmem
    obtain ⟨b, -, hb⟩ := List.mem_map.1 hmem
    have hpred : pred = (predictWr c t b).2 := (congrArg Prod.snd hb).symm
    rw [hpred]
    exact extractLsb'_high _
  cases k with
  | axiRd | apb => cases hk
  | axiWr t =>
    rw [Call.preds, wrPreds] at hk
    split at hk
    · cases hk
    · split at hk
      · exact hpredict _ _ hk
      · split at hk
        · exact hpredict _ _ hk
        · cases hk

/-- What has to be the case for a pair that does not agree. -/
theorem not_agree_iff {pred obs : ApbTr} (hdw : c.dataWidth = 64) (hhigh : pred.paddr.extractLsb' 32 32 = 0#32) :
    ¬ Agree pred obs ↔ obs.pstrb ≠ pred.pstrb ∨ obs.paddr.extractLsb' 32 32 ≠ 0#32 ∨
      pred.paddr.setWidth 32 ≠ obs.paddr.setWidth 32 ∨
      byteMatch pred.pwdata pred.pstrb obs.pwdata obs.pstrb c.dataWidth = false := by
  rw [hdw]
  constructor
  · intro h
    by_contra hno
    simp only [not_or, ne_eq, not_not, Bool.not_eq_false] at hno
    obtain ⟨hstrb, hhi, hlo, hbytes⟩ := hno
    rw [byteMatch_iff] at hbytes
    refine h ⟨?_, hstrb, fun i hi hon => (hbytes i hi hon (hstrb ▸ hon)).symm⟩
    exact (eq_iff_halves ..).2 ⟨hlo.symm, hhi.trans hhigh.symm⟩
  · rintro h ⟨haddr, hstrb, hbytes⟩
    rcases h with h | h | h | h
    · exact h hstrb
    · exact h (haddr ▸ hhigh)
    · exact h (by rw [haddr])
    · rw [byteMatch_iff.2 fun i hi hon _ => (hbytes i hi hon).symm] at h
      cases h

/-- Accepted writes are the predicted ones, except for runs in which a difference is overlooked. -/
theorem accepts_agreeing (c : Cfg) (hdw : c.dataWidth = 64) (cs : List Call) (hcs : LegalOkay c cs) :
    (Accepted c (after c cs) → ∀ p, List.Forall₂ Agree (predicted c cs p) (observed cs p)) ↔ ¬ Overlooked c cs := by
  have hiff : ¬ Overlooked c cs ↔ (Accepted c (after c cs) → ∀ p, ∀ x ∈ pairsOf c cs p, Agree x.1 x.2) := by
    rw [accepted_after_iff hcs.no_read]
    constructor
    · rintro h ⟨hc, hcount, hreads, hdvd⟩ p x hx
      by_contra hne
      exact h ⟨hc, hcount, hreads, hdvd, p, x, hx,
        (not_agree_iff hdw (predicted_high (List.of_mem_zip hx).1)).1 hne⟩
    · rintro h ⟨hc, hcount, hreads, hdvd, p, x, hx, hdiff⟩
      exact (not_agree_iff hdw (predicted_high (List.of_mem_zip hx).1)).2 hdiff (h ⟨hc, hcount, hreads, hdvd⟩ p x hx)
  rw [hiff]
  refine imp_congr_right fun hacc => forall_congr' fun p => ?_
  have hcount := ((accepted_after_iff hcs.no_read).1 hacc).2.1 p
  rw [List.forall₂_iff_zip]
  exact ⟨fun h x hx => h.2 hx, fun h => ⟨hcount.symm, fun hx => h _ hx⟩⟩

/-- A write with half of its bytes, as it was predicted. -/
theorem accepts_agreeing_half :
    let t : Call := .axiWr ⟨0x1000, 0, 0b011, 0b01, 0b00, [0x1122334455667788], [0x0f]⟩
    let x : Call := .apb false ⟨0, 0x1000, true, 0x99aabbcc55667788, 0x0f, 0, false⟩
    Accepted {} (after {} [x, t]) ∧ ∀ p, List.Forall₂ Agree (predicted {} [x, t] p) (observed [x, t] p) := by
  intro t x
  have hcs : LegalOkay {} [x, t] := by
    intro k hk
    rcases List.mem_pair.1 hk with rfl | rfl
    · trivial
    · exact ⟨by decide, rfl⟩
  have hsame : ∀ p, ∀ y ∈ pairsOf {} [x, t] p, ¬ (y.2.pstrb ≠ y.1.pstrb ∨ y.2.paddr.extractLsb' 32 32 ≠ 0#32 ∨
      y.1.paddr.setWidth 32 ≠ y.2.paddr.setWidth 32 ∨
      byteMatch y.1.pwdata y.1.pstrb y.2.pwdata y.2.pstrb 64 = false) := by decide
  have hacc : Accepted {} (after {} [x, t]) := by decide
  refine ⟨hacc, (accepts_agreeing {} rfl _ hcs).2 (fun h => ?_) hacc⟩
  obtain ⟨p, y, hy, hdiff⟩ := h.differs
  exact hsame p y hy hdiff

/-- A write whose byte lanes are all dropped is accepted. -/
theorem accepts_dropped_lanes : ¬ ∀ (c : Cfg) (cs : List Call), c.dataWidth = 64 → LegalOkay c cs →
    Accepted c (after c cs) → ∀ p, List.Forall₂ Agree (predicted c cs p) (observed cs p) := by
  intro h
  let t : Call := .axiWr ⟨0x1000, 0, 0b011, 0b01, 0b00, [0x1122334455667788], [0xff]⟩
  let obs : ApbTr := ⟨0, 0x1000, true, 0, 0x00, 0, false⟩
  have hcs : LegalOkay {} [.apb false obs, t] := by
    intro k hk
    rcases List.mem_pair.1 hk with rfl | rfl
    · trivial
    · exact ⟨by decide, rfl⟩
  have hagree := h {} [.apb false obs, t] rfl hcs (by decide) false
  have hmem : (⟨0, 0x1000, true, 0x1122334455667788, 0xff, 0, false⟩, obs) ∈
      (predicted {} [.apb false obs, t] false).zip (observed [.apb false obs, t] false) := by decide
  have hstrb := ((List.forall₂_iff_zip.1 hagree).2 hmem).pstrb
  exact absurd hstrb (by decide)

end Scoreboard

end AxiApb
