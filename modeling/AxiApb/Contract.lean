import AxiApb.BurstTrace

/-!
# The supported configuration

The words of the design contract for the configuration with 32-bit addresses, 64-bit data and the port select in
bit 31: which requests are supported, the address of a beat, where a write ends, when its `WLAST`s are malformed.
Each is stated on its own and then shown to be what the transaction machine uses.
-/

namespace AxiApb

variable {idWidth : Nat}

/-- The address of beat `n`: 8 bytes further for each beat of an `INCR` burst, the same for a `FIXED` one. -/
def Req.address (q : Req (contract idWidth)) (n : Nat) : BitVec 32 :=
  if q.burst = burstIncr then q.addr + BitVec.ofNat 32 (8 * n) else q.addr

/-- The first and the last beat of an `INCR` burst lie on different sides of bit 31. -/
def Req.Crosses (q : Req (contract idWidth)) : Prop :=
  q.burst = burstIncr ∧ (q.address q.len.toNat).getLsbD 31 ≠ q.addr.getLsbD 31

/-- `AxSIZE` and `AxBURST` are supported and the burst stays in its window. -/
def Req.Supported (q : Req (contract idWidth)) : Prop :=
  q.size = 0b011#3 ∧ (q.burst = burstFixed ∨ q.burst = burstIncr) ∧ ¬ q.Crosses

instance (q : Req (contract idWidth)) : Decidable q.Crosses := inferInstanceAs (Decidable (_ ∧ _))

instance (q : Req (contract idWidth)) : Decidable q.Supported := inferInstanceAs (Decidable (_ ∧ _ ∧ _))

/-- The number of W beats of a write: up to the first `WLAST`, but not more than `AWLEN + 1`. -/
def writeBeats {P : Params} (len : BitVec 8) (ws : List (WBeat P)) : Nat :=
  match ws.findIdx? (·.wlast) with
  | some j => min (len.toNat + 1) (1 + j)
  | none => len.toNat + 1

/-- `WLAST` on a beat before beat `AWLEN`, or not on beat `AWLEN`. -/
def Malformed {P : Params} (len : BitVec 8) (ws : List (WBeat P)) : Prop :=
  (∃ n w, ws[n]? = some w ∧ n < len.toNat ∧ w.wlast = true) ∨ (∃ w, ws[len.toNat]? = some w ∧ w.wlast = false)

theorem Req.beatAddr_contract {q : Req (contract idWidth)} (hsize : q.size = 0b011#3) (n : Nat) :
    q.beatAddr n = q.address n := by
  unfold Req.beatAddr Req.address
  rw [hsize, Nat.mul_comm 8 n]
  rfl

theorem Req.legal_iff_supported {q : Req (contract idWidth)} : q.Legal ↔ q.Supported := by
  have hexp : (contract idWidth).expectedAxsize = 0b011#3 := rfl
  unfold Req.Legal Req.Supported Req.Crosses
  rw [hexp]
  refine and_congr_right fun hsize => and_congr_right fun hburst => ?_
  rw [Req.beatAddr_contract hsize, not_and, not_not]
  constructor
  · exact fun h _ => h
  · intro h
    rcases hburst with hb | hb
    · show (q.address _).getLsbD 31 = q.addr.getLsbD 31
      rw [Req.address, hb, if_neg (by decide)]
    · exact h hb

/-- Bit 31 of the addresses in a burst: the offset of the last beat is too small to change it twice. -/
private theorem getLsbD_between (a : BitVec 32) {m n : Nat} (hm : m < 256) (hn : n ≤ m)
    (h : (a + BitVec.ofNat 32 (8 * m)).getLsbD 31 = a.getLsbD 31) :
    (a + BitVec.ofNat 32 (8 * n)).getLsbD 31 = a.getLsbD 31 := by
  have hsign : ∀ x : BitVec 32, x.getLsbD 31 = decide (2 ^ 31 ≤ x.toNat) := fun x =>
    (BitVec.msb_eq_getLsbD_last x).symm.trans (BitVec.msb_eq_decide x)
  have ha := a.isLt
  rw [hsign, hsign, decide_eq_decide, BitVec.toNat_add, BitVec.toNat_ofNat] at h ⊢
  omega

/-- No beat of a supported burst leaves the window of the first one. -/
theorem Req.Supported.window {q : Req (contract idWidth)} (hq : q.Supported) {n : Nat} (hn : n ≤ q.len.toNat) :
    (q.address n).getLsbD 31 = q.port := by
  obtain ⟨-, hburst, hcross⟩ := hq
  show (q.address n).getLsbD 31 = q.addr.getLsbD 31
  rcases hburst with hb | hb
  · rw [Req.address, hb, if_neg (by decide)]
  · have hend : (q.address q.len.toNat).getLsbD 31 = q.addr.getLsbD 31 := by
      by_contra hne
      exact hcross ⟨hb, hne⟩
    rw [Req.address, if_pos hb] at hend ⊢
    exact getLsbD_between q.addr q.len.isLt hn hend

/-- The addresses of a supported `INCR` burst do not wrap around. -/
theorem Req.Supported.no_wrap {q : Req (contract idWidth)} (hq : q.Supported) (hb : q.burst = burstIncr) {n : Nat}
    (hn : n ≤ q.len.toNat) : (q.address n).toNat = q.addr.toNat + 8 * n := by
  have hlen : q.len.toNat < 256 := q.len.isLt
  have ha : q.addr.toNat < 2 ^ 32 := q.addr.isLt
  have hlast := hq.window (Nat.le_refl _)
  have hsign : ∀ x : BitVec 32, x.getLsbD 31 = decide (2 ^ 31 ≤ x.toNat) := fun x =>
    (BitVec.msb_eq_getLsbD_last x).symm.trans (BitVec.msb_eq_decide x)
  change _ = q.addr.getLsbD 31 at hlast
  rw [Req.address, if_pos hb, hsign, hsign, decide_eq_decide, BitVec.toNat_add, BitVec.toNat_ofNat] at hlast
  rw [Req.address, if_pos hb, BitVec.toNat_add, BitVec.toNat_ofNat]
  omega

theorem Req.writes_contract {q : Req (contract idWidth)} (hsize : q.size = 0b011#3)
    (ws : List (WBeat (contract idWidth))) :
    q.writes ws = ws.mapIdx fun n w =>
      (q.addr.getLsbD 31, ⟨q.address n, q.prot, true, some (w.wdata, w.wstrb)⟩) := by
  unfold Req.writes Req.writeCtrl
  simp only [Req.beatAddr_contract hsize]
  rfl

section
variable {P : Params} {q : Req P} {ws : List (WBeat P)} {w : WBeat P}

/-- No `WLAST` was accepted while beats are still awaited. -/
private theorem findIdx_wlast (hne : q.wEnded ws = false) : ws.findIdx? (·.wlast) = none := by
  rw [List.findIdx?_eq_none_iff]
  intro x hx
  simpa using List.any_eq_false.1 (Req.wEnded_eq_false.1 hne).1 x hx

/-- A write that is over, and was not before its last beat, has just the beats it should have. -/
theorem length_eq_writeBeats (hne : q.wEnded ws = false) (he : q.wEnded (ws ++ [w]) = true) :
    (ws ++ [w]).length = writeBeats q.len (ws ++ [w]) := by
  have hn := (Req.wEnded_eq_false.1 hne).2
  rw [Req.wEnded_concat hne] at he
  unfold writeBeats
  rw [List.findIdx?_append, findIdx_wlast hne]
  cases hw : w.wlast with
  | true =>
    simp only [List.findIdx?_cons, hw, List.length_append, List.length_cons, List.length_nil]
    simp
    omega
  | false =>
    have hlen : ws.length = q.len.toNat := by simpa [hw] using he
    simp [List.findIdx?_cons, hw, hlen]

theorem length_lt_writeBeats (hne : q.wEnded ws = false) : ws.length < writeBeats q.len ws := by
  rw [writeBeats, findIdx_wlast hne]
  exact Nat.lt_succ_of_le (Req.wEnded_eq_false.1 hne).2

theorem malformed_iff (hlen : ws.length ≤ q.len.toNat + 1) : q.malformed ws = true ↔ Malformed q.len ws := by
  have hany : q.malformed ws = true ↔ ∃ n w, ws[n]? = some w ∧ w.wlast ≠ (n == q.len.toNat) := by
    rw [Req.malformed, List.any_eq_true]
    constructor
    · rintro ⟨⟨w, n⟩, hmem, h⟩
      exact ⟨n, w, List.mem_zipIdx_iff_getElem?.1 hmem, by simpa using h⟩
    · rintro ⟨n, w, hn, h⟩
      exact ⟨(w, n), List.mem_zipIdx_iff_getElem?.2 hn, by simpa using h⟩
  rw [hany]
  constructor
  · rintro ⟨n, w, hn, h⟩
    have hlt : n < ws.length := (List.getElem?_eq_some_iff.1 hn).1
    by_cases he : n = q.len.toNat
    · exact Or.inr ⟨w, he ▸ hn, by simpa [he] using h⟩
    · rw [beq_eq_false_iff_ne.2 he] at h
      exact Or.inl ⟨n, w, hn, by omega, by simpa using h⟩
  · rintro (⟨n, w, hn, hlt, h⟩ | ⟨w, hn, h⟩)
    · exact ⟨n, w, hn, by simp [h]; omega⟩
    · exact ⟨_, w, hn, by simp [h]⟩

end

end AxiApb
