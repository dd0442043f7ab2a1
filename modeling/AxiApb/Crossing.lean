import AxiApb.BurstSafety
import AxiApb.Windows

/-!
# The window check of the burst bridge with other parameters

`aw_param_err` and `ar_param_err` compare the select bit of the first and of the last beat.  With a select bit far
above the beat size this tells whether the burst leaves the window of its first beat.  With small windows a burst can
leave its window and come back, or go on to the window after the next: it is accepted, and beats of it are issued
outside its window.
-/

namespace AxiApb

open Clocked

/-! ### Configurations -/

/-- The data widths in the table of `EXPECTED_AXSIZE`. -/
def dataWidths : List Nat := [8, 16, 32, 64, 128, 256, 512, 1024]

/-- 32-bit addresses, data of `w` bits, port select by bit `bit`. -/
abbrev windowed (idWidth w bit : Nat) : Params := ⟨idWidth, 32, w, bit⟩

/-- The entries of the table are the binary logarithms of the widths in bytes. -/
theorem two_pow_expectedAxsize {P : Params} (h : P.dataWidth ∈ dataWidths) :
    2 ^ P.expectedAxsize.toNat = P.dataWidth / 8 := by
  unfold Params.expectedAxsize
  simp only [dataWidths, List.mem_cons, List.not_mem_nil, or_false] at h
  rcases h with h | h | h | h | h | h | h | h <;> rw [h] <;> rfl

section
variable {idWidth w bit : Nat}

namespace Req

/-- The address of beat `n`: `DATA_WIDTH / 8` bytes further for each beat of an `INCR` burst. -/
def beatAt (q : Req (windowed idWidth w bit)) (n : Nat) : BitVec 32 :=
  if q.burst = burstIncr then q.addr + BitVec.ofNat 32 (n * (w / 8)) else q.addr

/-- Some beat lies in another window than the first one. -/
def Leaves (q : Req (windowed idWidth w bit)) : Prop :=
  ∃ n ≤ q.len.toNat, (q.beatAt n).getLsbD bit ≠ q.addr.getLsbD bit

instance (q : Req (windowed idWidth w bit)) : Decidable q.Leaves := inferInstanceAs (Decidable (∃ n ≤ _, _ ≠ _))

/-- The number of window borders between the first and the last beat of an `INCR` burst. -/
def borders (q : Req (windowed idWidth w bit)) : Nat :=
  Windows.passed (2 ^ bit) q.addr.toNat (q.len.toNat * (w / 8))

/-- The last beat tells whether the burst leaves its window. -/
def LastTells (q : Req (windowed idWidth w bit)) : Prop :=
  q.burst = burstFixed ∨ q.borders = 0 ∨ q.borders % 2 = 1

instance (q : Req (windowed idWidth w bit)) : Decidable q.LastTells := inferInstanceAs (Decidable (_ ∨ _ ∨ _))

variable {q : Req (windowed idWidth w bit)}

theorem beatAddr_windowed (hw : w ∈ dataWidths) (hsize : q.size = (windowed idWidth w bit).expectedAxsize) (n : Nat) :
    q.beatAddr n = q.beatAt n := by
  unfold beatAddr beatAt
  rw [hsize, two_pow_expectedAxsize (P := windowed idWidth w bit) hw]

/-- The select bit of a beat, without the wrap at 32 bits. -/
private theorem beatAt_bit (hhi : bit ≤ 31) (hb : q.burst = burstIncr) (n : Nat) :
    (q.beatAt n).getLsbD bit = (q.addr.toNat + n * (w / 8)).testBit bit := by
  have hlt : bit < 32 := Nat.lt_succ_of_le hhi
  rw [beatAt, if_pos hb, BitVec.getLsbD, BitVec.toNat_add, BitVec.toNat_ofNat, Nat.add_mod_mod,
    Nat.testBit_mod_two_pow, decide_eq_true hlt, Bool.true_and]

theorem le_window (hw : w ∈ dataWidths) (hlo : Nat.log2 (w / 8) ≤ bit) : w / 8 ≤ 2 ^ bit := by
  rw [← two_pow_expectedAxsize (P := windowed 0 w 0) hw] at hlo ⊢
  rw [Nat.log2_two_pow] at hlo
  exact Nat.pow_le_pow_right (by decide) hlo

/-- Comparing the first and the last beat is exact just for such bursts. -/
theorem last_ne_iff_leaves (hw : w ∈ dataWidths) (hlo : Nat.log2 (w / 8) ≤ bit) (hhi : bit ≤ 31)
    (hburst : q.burst = burstFixed ∨ q.burst = burstIncr) :
    ((q.beatAt q.len.toNat).getLsbD bit ≠ q.addr.getLsbD bit ↔ q.Leaves) ↔ q.LastTells := by
  unfold LastTells
  rcases hburst with hb | hb
  · have hfixed : ∀ n, q.beatAt n = q.addr := fun n => if_neg (by rw [hb]; decide)
    simp [Leaves, hfixed, hb]
  · have hne : ¬ q.burst = burstFixed := by rw [hb]; decide
    have hzero : q.addr.getLsbD bit = q.addr.toNat.testBit bit := rfl
    simp only [Leaves, beatAt_bit hhi hb, hzero, hne, false_or]
    exact Windows.last_decides_iff (le_window hw hlo)

/-- A select bit far above the beat size. -/
theorem lastTells_of_large (hw : w ∈ dataWidths) (hbit : Nat.log2 (w / 8) + 8 ≤ bit)
    (hburst : q.burst = burstFixed ∨ q.burst = burstIncr) : q.LastTells := by
  have hlen : q.len.toNat ≤ 256 := Nat.le_of_lt q.len.isLt
  have hsize : w / 8 * 256 ≤ 2 ^ bit := by
    have hpow := le_window hw (Nat.le_refl _)
    calc w / 8 * 256 ≤ 2 ^ Nat.log2 (w / 8) * 2 ^ 8 := Nat.mul_le_mul_right 256 hpow
      _ = 2 ^ (Nat.log2 (w / 8) + 8) := (Nat.pow_add ..).symm
      _ ≤ 2 ^ bit := Nat.pow_le_pow_right (by decide) hbit
  have hdist : q.len.toNat * (w / 8) ≤ 2 ^ bit := by
    rw [Nat.mul_comm]
    exact Nat.le_trans (Nat.mul_le_mul_left _ hlen) hsize
  have hone : q.borders ≤ 1 := Windows.passed_le_one (Nat.two_pow_pos bit) hdist
  unfold LastTells
  rcases hburst with hb | hb
  · exact Or.inl hb
  · right
    omega

end Req

/-! ### The check -/

namespace Burst

/-- For a request with the right size and a supported burst type the parameter check is the comparison of the last
beat with the first. -/
theorem paramErr_iff {q : Req (windowed idWidth w bit)} (hw : w ∈ dataWidths)
    (hsize : q.size = (windowed idWidth w bit).expectedAxsize) (hburst : q.burst = burstFixed ∨ q.burst = burstIncr) :
    paramErr q.addr q.len q.size q.burst = true ↔ (q.beatAt q.len.toNat).getLsbD bit ≠ q.addr.getLsbD bit := by
  rw [Req.paramErr_eq, Bool.not_eq_true', decide_eq_false_iff_not, ← Req.beatAddr_windowed hw hsize]
  exact not_congr ⟨fun h => h.2.2, fun h => ⟨hsize, hburst, h⟩⟩

/-- A beat that is in transfer lies in the window of its request, if the last beat of the burst tells. -/
private theorem beat_window {s : State (windowed idWidth w bit)} {ph : Phase (windowed idWidth w bit)} {x : Bool}
    {q q' : Req (windowed idWidth w bit)} {n : Nat} (hw : w ∈ dataWidths) (hlo : Nat.log2 (w / 8) ≤ bit)
    (hhi : bit ≤ 31) (hr : Rel s ph) (hbeat : ph.beat = some (q', n)) (hq : q' = q) (hx : x = q'.port)
    (ha : (s.port x).paddr = q'.beatAddr n) (ht : q.LastTells) : (s.port x).paddr.getLsbD bit = x := by
  subst hq
  obtain ⟨hl, hle⟩ := beat_legal hr.ok hbeat
  have hstay : ¬ q'.Leaves := by
    intro hleave
    have hlast := ((Req.last_ne_iff_leaves hw hlo hhi hl.2.1).2 ht).2 hleave
    rw [← Req.beatAddr_windowed hw hl.1] at hlast
    exact hlast hl.2.2
  rw [ha, hx, Req.beatAddr_windowed hw hl.1]
  by_contra hne
  exact hstay ⟨n, hle, hne⟩

/-- The window check says whether some beat leaves the window of the first one just if the last beat tells, which it
always does for a select bit eight positions above the beat size; and no beat of such a burst is issued outside its
window. -/
theorem crossing_check (hw : w ∈ dataWidths) (hlo : Nat.log2 (w / 8) ≤ bit) (hhi : bit ≤ 31) :
    (∀ i : In (windowed idWidth w bit), i.awsize = (windowed idWidth w bit).expectedAxsize →
      (i.awburst = burstFixed ∨ i.awburst = burstIncr) →
      ((awParamErr i = true ↔ i.awReq.Leaves) ↔ i.awReq.LastTells)) ∧
    (∀ i : In (windowed idWidth w bit), i.arsize = (windowed idWidth w bit).expectedAxsize →
      (i.arburst = burstFixed ∨ i.arburst = burstIncr) →
      ((arParamErr i = true ↔ i.arReq.Leaves) ↔ i.arReq.LastTells)) ∧
    (Nat.log2 (w / 8) + 8 ≤ bit → ∀ q : Req (windowed idWidth w bit), q.burst = burstFixed ∨ q.burst = burstIncr →
      q.LastTells) ∧
    (∀ (s : State (windowed idWidth w bit)) a is, Reachable s → awHandshake s a = true →
      (∀ c ∈ (bridge _).trace (posedge s a) is, reqTaken c = false) → a.awReq.LastTells →
      ∀ x, (((bridge _).run s (a :: is)).port x).psel = true →
        (((bridge _).run s (a :: is)).port x).paddr.getLsbD bit = x) ∧
    ∀ (s : State (windowed idWidth w bit)) a is, Reachable s → arHandshake s a = true →
      (∀ c ∈ (bridge _).trace (posedge s a) is, reqTaken c = false) → a.arReq.LastTells →
      ∀ x, (((bridge _).run s (a :: is)).port x).psel = true →
        (((bridge _).run s (a :: is)).port x).paddr.getLsbD bit = x := by
  refine ⟨fun i hsize hburst => ?_, fun i hsize hburst => ?_, fun hbit q hburst => ?_, ?_, ?_⟩
  · have herr := paramErr_iff (q := i.awReq) hw hsize hburst
    exact Iff.trans (iff_congr herr Iff.rfl) (Req.last_ne_iff_leaves hw hlo hhi hburst)
  · have herr := paramErr_iff (q := i.arReq) hw hsize hburst
    exact Iff.trans (iff_congr herr Iff.rfl) (Req.last_ne_iff_leaves hw hlo hhi hburst)
  · exact Req.lastTells_of_large hw hbit hburst
  · intro s a is hs haw hnext htells x hsel
    obtain ⟨ph, hr, ht⟩ := write_track hs haw hnext
    obtain ⟨q, n, hbeat, hx, ha⟩ := paddr_rel hr hsel
    exact beat_window hw hlo hhi hr hbeat (beat_of_write hr.ok ht hbeat).1 hx ha htells
  · intro s a is hs har hnext htells x hsel
    obtain ⟨ph, hr, ht⟩ := read_track hs har hnext
    obtain ⟨q, n, hbeat, hx, ha⟩ := paddr_rel hr hsel
    exact beat_window hw hlo hhi hr hbeat (beat_of_read ht hbeat).1 hx ha htells

/-- Bursts of four beats at the end of a window of 1 MiB, as a request and in transfer. -/
theorem crossing_check_small_window :
    let r := In.ready (windowed 4 32 20)
    let i := r.withAw ⟨5, 0x000ffff8, 3, 0b010, 0b01, 0⟩
    let a := r.withAw ⟨5, 0x000ffff0, 3, 0b010, 0b01, 0⟩
    let is := [r.withW ⟨7, 0xf, false⟩]
    ((awParamErr i = true ↔ i.awReq.Leaves) ↔ i.awReq.LastTells) ∧
      (((bridge _).run (State.zero _) (a :: is)).port false).paddr.getLsbD 20 = false :=
  ⟨(crossing_check (w := 32) (by decide) (by decide) (by decide)).1 _ rfl (Or.inr rfl),
    (crossing_check (w := 32) (by decide) (by decide) (by decide)).2.2.2.1 _ _ _ (reachable_zero _) (by decide)
      (by decide) (by decide) _ (by decide)⟩

/-- Windows of one beat: the second of three beats lies in the other window, and the burst is accepted and issues
it. -/
theorem crossing_missed :
    let r := In.ready (windowed 4 64 3)
    let aw := r.withAw ⟨5, 0, 2, 0b011, 0b01, 0⟩
    let ar := r.withAr ⟨5, 0, 2, 0b011, 0b01, 0⟩
    let s := (bridge _).run (State.zero _) [aw, r.withW ⟨7, 0xff, false⟩, r, r, r.withW ⟨9, 0xff, false⟩]
    ¬ (awParamErr aw = true ↔ aw.awReq.Leaves) ∧ ¬ (arParamErr ar = true ↔ ar.arReq.Leaves) ∧
      (s.port false).psel = true ∧ (s.port false).paddr.getLsbD 3 = true := by
  decide +kernel

end Burst

end

end AxiApb
