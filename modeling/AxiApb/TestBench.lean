import AxiApb.DualMemories
import AxiApb.MonitorReports

/-!
# The UVM benches of the burst bridge

`tb_uvm_burst` and `tb_uvm_burst_ext` close the loop: the bridge, the slave model behind its ports, the monitors and the
scoreboard.  The words of the slave model are those of the shadow, as soon as they are written (`Mirrors`); nothing sets the
memories before.  So whatever they hold at first, whatever the master does, and in whatever order the processes wake, the
scoreboard raises no alarm, and none at the end of the test, as long as no word is read before it is written, unless it
holds 0, which is what the scoreboard expects (`burst_bench_silent`).  In the extended bench this needs that no write ends
with `PSLVERR`, which the slave model stores and the scoreboard does not (`ext_bench_silent`).
-/

namespace AxiApb.TestBench

open Clocked Scoreboard Monitors DualMem

/-! ### The keys of the shadow -/

/-- A key of the shadow is a port and a word of its memory. -/
def Keys {κ : Type} (c : Cfg) (index : BitVec 32 → κ) : Prop :=
  ∀ x y a b, ramKeyOf c (portIx x) a = ramKeyOf c (portIx y) b ↔ x = y ∧ index a = index b

/-- The key is made of the bits from `lsb` on. -/
theorem ramKeyOf_eq {c : Cfg} {lsb n : Nat} (hlsb : c.apbMemAddrLsb = BitVec.ofNat 32 lsb) (hl : lsb < 32)
    (hn : ∀ j, ((1#32 <<< (c.apbMemAddrMsb - c.apbMemAddrLsb + 1#32)) - 1#32).getLsbD j = decide (j < n))
    (p a : BitVec 32) : ramKeyOf c p a = p <<< 20 ||| (a.extractLsb' lsb n).setWidth 32 := by
  rw [ramKeyOf]
  congr 1
  apply BitVec.eq_of_getLsbD_eq
  intro j hj
  have hlt : (BitVec.ofNat 32 lsb).toNat = lsb := by simp; omega
  rw [BitVec.getLsbD_and, hn, hlsb, BitVec.ushiftRight_eq', hlt, BitVec.getLsbD_ushiftRight, BitVec.getLsbD_setWidth,
    BitVec.getLsbD_extractLsb']
  simp [hj, Bool.and_comm]

theorem keys_of {c : Cfg} {lsb n : Nat} (hlsb : c.apbMemAddrLsb = BitVec.ofNat 32 lsb) (hl : lsb < 32)
    (hn : ∀ j, ((1#32 <<< (c.apbMemAddrMsb - c.apbMemAddrLsb + 1#32)) - 1#32).getLsbD j = decide (j < n))
    (hwidth : (c.apbMemAddrMsb - c.apbMemAddrLsb + 1#32).toNat ≤ 20) (hle : n ≤ 20) :
    Keys c fun a => a.extractLsb' lsb n := by
  intro x y a b
  constructor
  · intro h
    have hxy : x = y := by rw [← ramKeyOf_port hwidth x a, h, ramKeyOf_port hwidth]
    refine ⟨hxy, ?_⟩
    rw [ramKeyOf_eq hlsb hl hn, ramKeyOf_eq hlsb hl hn] at h
    apply BitVec.eq_of_getLsbD_eq
    intro j hj
    have hbit := congrArg (·.getLsbD j) h
    have hj20 : j < 20 := by omega
    have hj32 : j < 32 := by omega
    simpa [BitVec.getLsbD_or, BitVec.getLsbD_shiftLeft, hj20, hj32] using hbit
  · rintro ⟨rfl, h⟩
    have h : a.extractLsb' lsb n = b.extractLsb' lsb n := h
    rw [ramKeyOf_eq hlsb hl hn, ramKeyOf_eq hlsb hl hn, h]

theorem ones_bits {n : Nat} (hn : n < 32) (j : Nat) : ((1#32 <<< BitVec.ofNat 32 n) - 1#32).getLsbD j = decide (j < n) := by
  have hlt : (BitVec.ofNat 32 n).toNat = n := by simp; omega
  have hval : (1#32 <<< BitVec.ofNat 32 n) - 1#32 = BitVec.ofNat 32 (2 ^ n - 1) := by
    have hpow : 2 ^ n < 2 ^ 32 := Nat.pow_lt_pow_right (by decide) hn
    have hpos : 0 < 2 ^ n := Nat.two_pow_pos n
    apply BitVec.eq_of_toNat_eq
    rw [BitVec.shiftLeft_eq', hlt, BitVec.toNat_sub, BitVec.toNat_shiftLeft, BitVec.toNat_ofNat, Nat.shiftLeft_eq]
    simp only [BitVec.toNat_ofNat]
    omega
  rw [hval, BitVec.getLsbD_ofNat, Nat.testBit_two_pow_sub_one]
  by_cases hj : j < n
  · simp [hj]; omega
  · simp [hj]

/-- The default of `bridge_env_cfg`, and what `test_bridge_burst_ext` sets. -/
theorem keys_burst : Keys {} fun a => a.extractLsb' 2 8 :=
  keys_of (n := 8) rfl (by decide) (fun j => ones_bits (n := 8) (by decide) j) (by decide) (by decide)

theorem keys_ext : Keys { apbMemAddrMsb := 12, apbMemAddrLsb := 3 } fun a => a.extractLsb' 3 10 :=
  keys_of (n := 10) rfl (by decide) (fun j => ones_bits (n := 10) (by decide) j) (by decide) (by decide)

/-! ### The bench -/

section
variable {idWidth : Nat} {ε σ κ : Type}

/-- The slave models at the widths of the supported configuration. -/
abbrev slaveWidths : DualMemWs.Params := { addrWidth := 32, dataWidth := 64 }

/-- What the bridge drives on port `x`. -/
def portIn (s : Burst.State (contract idWidth)) (x : Bool) : DualMemWs.PortIn slaveWidths :=
  ⟨(s.port x).paddr, (s.port x).psel, (s.port x).penable, (s.port x).pwrite, (s.port x).pwdata⟩

structure Bench (idWidth : Nat) (σ : Type) where
  bridge : Burst.State (contract idWidth)
  mon : AxiMon
  slv : Bool → σ

/-- The inputs of a bench at an edge: the AXI master, the order of the processes, and what the test drives beside the
slave models. -/
structure BenchIn (idWidth : Nat) (ε : Type) where
  axi : In (contract idWidth)
  race : Race
  side : Bool → ε

def slaveOut (M : SlavePort slaveWidths ε σ) (t : Bench idWidth σ) (i : BenchIn idWidth ε) (x : Bool) :
    DualMemWs.PortOut slaveWidths :=
  M.out (t.slv x) (i.side x) (portIn t.bridge x)

/-- The inputs of the bridge: the APB side is the slave model's. -/
def inputs (M : SlavePort slaveWidths ε σ) (t : Bench idWidth σ) (i : BenchIn idWidth ε) : In (contract idWidth) :=
  { i.axi with
    prdata0 := (slaveOut M t i false).prdata
    pready0 := (slaveOut M t i false).pready
    pslverr0 := (slaveOut M t i false).pslverr
    prdata1 := (slaveOut M t i true).prdata
    pready1 := (slaveOut M t i true).pready
    pslverr1 := (slaveOut M t i true).pslverr }

/-- A cycle shows the inputs of the bridge, its wires, and what the monitors deliver. -/
def bench (idWidth : Nat) (M : SlavePort slaveWidths ε σ) : Machine (BenchIn idWidth ε)
    (In (contract idWidth) × Wires (contract idWidth) × List Call) (Bench idWidth σ) where
  step t i :=
    { bridge := Burst.posedge t.bridge (inputs M t i)
      mon := (t.mon.step i.race (inputs M t i, wires t.bridge (inputs M t i))).1
      slv := fun x => M.edge (t.slv x) (i.side x) (portIn t.bridge x) }
  out t i := (inputs M t i, (monitored _).out (t.bridge, t.mon) (inputs M t i, i.race))

abbrev BenchCycle (idWidth : Nat) (ε : Type) :=
  BenchIn idWidth ε × In (contract idWidth) × Wires (contract idWidth) × List Call

/-- The cycle of a bench as one of the bridge and its monitors. -/
def monitoredCycle (c : BenchCycle idWidth ε) :
    (In (contract idWidth) × Race) × (Wires (contract idWidth) × List Call) :=
  ((c.2.1, c.1.race), c.2.2)

/-- What a trace of a bench delivers to the scoreboard, its transactions, and its transfers. -/
def calls (tr : List (BenchCycle idWidth ε)) : List Call :=
  delivered (tr.map monitoredCycle)

def benchHistory (tr : List (BenchCycle idWidth ε)) :
    History idWidth :=
  history ((tr.map monitoredCycle).map sampled)

def transfers (tr : List (BenchCycle idWidth ε)) :
    List ApbTr :=
  tr.flatMap fun c => apbEvent false (c.2.1, c.2.2.1) ++ apbEvent true (c.2.1, c.2.2.1)

end

/-! ### Reads of known words -/

section
variable {κ : Type}

/-- One of the transfers `pre` wrote the word of `obs`. -/
def WrittenIn (index : BitVec 32 → κ) (pre : List ApbTr) (obs : ApbTr) : Prop :=
  ∃ w ∈ pre, w.pwrite = true ∧ w.port = obs.port ∧ index (w.paddr.setWidth 32) = index (obs.paddr.setWidth 32)

/-- The word of `obs` is 0 in the memories `mem` behind the ports. -/
def ZeroAt (index : BitVec 32 → κ) (mem : Bool → κ → BitVec 64) (obs : ApbTr) : Prop :=
  ∀ x, obs.port = portIx x → mem x (index (obs.paddr.setWidth 32)) = 0

/-- After the transfers `pre`, every read is of a word that was written before it, or that was 0 in the memories `mem` of
the start. -/
def ReadsKnown (index : BitVec 32 → κ) (mem : Bool → κ → BitVec 64) : List ApbTr → List ApbTr → Prop
  | _, [] => True
  | pre, obs :: obss =>
    (obs.pwrite = false → WrittenIn index pre obs ∨ ZeroAt index mem obs) ∧ ReadsKnown index mem (pre ++ [obs]) obss

instance [DecidableEq κ] (index : BitVec 32 → κ) (pre : List ApbTr) (obs : ApbTr) :
    Decidable (WrittenIn index pre obs) :=
  inferInstanceAs (Decidable (∃ w ∈ pre, _ ∧ _ ∧ _))

instance (index : BitVec 32 → κ) (mem : Bool → κ → BitVec 64) (obs : ApbTr) : Decidable (ZeroAt index mem obs) :=
  inferInstanceAs (Decidable (∀ _ : Bool, _ → _))

instance ReadsKnown.decidable [DecidableEq κ] (index : BitVec 32 → κ) (mem : Bool → κ → BitVec 64) :
    ∀ pre obss, Decidable (ReadsKnown index mem pre obss)
  | _, [] => .isTrue trivial
  | pre, obs :: obss => @instDecidableAnd _ _ _ (ReadsKnown.decidable index mem (pre ++ [obs]) obss)

variable {index : BitVec 32 → κ} {mem : Bool → κ → BitVec 64} {c : Cfg} {m : Shadow} {obs : ApbTr}

theorem readsKnown_append {pre obss : List ApbTr} (obss' : List ApbTr) : ReadsKnown index mem pre (obss ++ obss') ↔
    ReadsKnown index mem pre obss ∧ ReadsKnown index mem (pre ++ obss) obss' := by
  induction obss generalizing pre with
  | nil => simp [ReadsKnown]
  | cons obs obss ih => simp only [List.cons_append, ReadsKnown, ih, and_assoc, List.append_assoc, List.nil_append]

/-- A word that was written stays in the shadow, -/
theorem latch_isSome {k : BitVec 32} (h : (m k).isSome = true) : (latch c m obs k).isSome = true := by
  rw [latch]
  split
  · by_cases hk : k = ramKeyOf c obs.port (obs.paddr.setWidth 32)
    · subst hk
      rw [Function.update_self]
      rfl
    · rwa [Function.update_of_ne hk]
  · exact h

/-- and every write without `PSLVERR` brings its word there. -/
theorem isSome_of_writtenIn (hkeys : Keys c index) {x : Bool} (hx : obs.port = portIx x) {pre : List ApbTr}
    (hok : ∀ w ∈ pre, w.pwrite = true → w.pslverr = false) (hw : WrittenIn index pre obs) :
    ((pre.foldl (latch c) m) (ramKeyOf c obs.port (obs.paddr.setWidth 32))).isSome = true := by
  obtain ⟨w, hmem, hwrite, hport, haddr⟩ := hw
  induction pre using List.reverseRecOn with
  | nil => cases hmem
  | append_singleton pre o ih =>
    rw [List.foldl_append, List.foldl_cons, List.foldl_nil]
    rcases List.mem_append.1 hmem with hpre | hlast
    · exact latch_isSome (ih (fun w hw => hok w (List.mem_append_left _ hw)) hpre)
    · obtain rfl : w = o := List.mem_singleton.1 hlast
      have hkey : ramKeyOf c w.port (w.paddr.setWidth 32) = ramKeyOf c obs.port (obs.paddr.setWidth 32) := by
        rw [hport, hx]
        exact (hkeys x x _ _).2 ⟨rfl, haddr⟩
      rw [latch, if_pos ⟨hwrite, hok w hmem hwrite⟩, hkey, Function.update_self]
      rfl

theorem getD_known {o : Option (BitVec 64)} {d : BitVec 64} (h : o.isSome = true ∨ d = 0) : o.getD d = o.getD 0 := by
  rcases h with h | rfl
  · obtain ⟨v, rfl⟩ := Option.isSome_iff_exists.1 h
    rfl
  · rfl

end

/-! ### The memories are the shadow -/

section
variable {idWidth : Nat} {ε σ κ : Type} [DecidableEq κ] {M : SlavePort slaveWidths ε σ} {index : BitVec 32 → κ}
  {word : σ → κ → BitVec 64} {Inv : σ → Prop} {c : Cfg} {slv₀ : Bool → σ} {m : Shadow} {t : Bench idWidth σ}
  {i : BenchIn idWidth ε}

/-- The words of the slave models are those of the shadow, and where it has none those of the start. -/
def Mirrors (c : Cfg) (index : BitVec 32 → κ) (word : σ → κ → BitVec 64) (slv₀ : Bool → σ) (m : Shadow)
    (slv : Bool → σ) : Prop :=
  ∀ x a, word (slv x) (index a) = (m (ramKeyOf c (portIx x) a)).getD (word (slv₀ x) (index a))

/-- A transfer that the monitor of port `x` reports, on the wires of the bench. -/
theorem apbEvent_bench (M : SlavePort slaveWidths ε σ) (t : Bench idWidth σ) (i : BenchIn idWidth ε) (x : Bool) :
    apbEvent x (inputs M t i, wires t.bridge (inputs M t i)) =
      if (portIn t.bridge x).psel && (portIn t.bridge x).penable && (slaveOut M t i x).pready then
        [⟨portIx x, (portIn t.bridge x).paddr.setWidth 64, (portIn t.bridge x).pwrite, (portIn t.bridge x).pwdata,
          packStrb (P := contract idWidth) (t.bridge.port x).pstrb, (slaveOut M t i x).prdata,
          (slaveOut M t i x).pslverr⟩]
      else [] := by
  have hdw : ∀ d : Data (contract idWidth), packDw d = d := fun d => BitVec.setWidth_eq d
  have hready : (inputs M t i).pready x = (slaveOut M t i x).pready := by cases x <;> rfl
  have hdata : (inputs M t i).prdata x = (slaveOut M t i x).prdata := by cases x <;> rfl
  have herr : (inputs M t i).pslverr x = (slaveOut M t i x).pslverr := by cases x <;> rfl
  rw [apbEvent]
  simp only [wires, hdw, hready, hdata, herr]
  rfl

/-- A read of a known word that is reported returns the word of the shadow. -/
theorem answers_event (hM : IsMemory M index word Inv) (hkeys : Keys c index) {x : Bool} {pre : List ApbTr}
    (hm : ∀ a, word (t.slv x) (index a) =
      ((pre.foldl (latch c) m) (ramKeyOf c (portIx x) a)).getD (word (slv₀ x) (index a)))
    (hok : ∀ w ∈ pre, w.pwrite = true → w.pslverr = false)
    (hreads : ReadsKnown index (fun x => word (slv₀ x)) pre
      (apbEvent x (inputs M t i, wires t.bridge (inputs M t i)))) (err : Bool) :
    Answers c err (pre.foldl (latch c) m) (apbEvent x (inputs M t i, wires t.bridge (inputs M t i))) := by
  rw [apbEvent_bench] at hreads ⊢
  split at hreads
  · rename_i hgo
    rw [if_pos hgo]
    refine ⟨fun hr _ => ?_, trivial⟩
    have hread : (slaveOut M t i x).prdata = word (t.slv x) (index (portIn t.bridge x).paddr) :=
      hM.read (t.slv x) (i.side x) (portIn t.bridge x)
    have hpaddr : ((portIn t.bridge x).paddr.setWidth 64).setWidth 32 = (portIn t.bridge x).paddr := by
      rw [BitVec.setWidth_setWidth_of_le _ (by decide), BitVec.setWidth_eq]
    rw [held, hread, hm]
    show _ = ((pre.foldl (latch c) m) (ramKeyOf c (portIx x) (((portIn t.bridge x).paddr.setWidth 64).setWidth 32))).getD 0
    rw [hpaddr]
    refine getD_known ?_
    rcases hreads.1 hr with hw | hz
    · have hsome := isSome_of_writtenIn (m := m) hkeys (x := x) rfl hok hw
      rw [hpaddr] at hsome
      exact .inl hsome
    · have hzero := hz x rfl
      rw [hpaddr] at hzero
      exact .inr hzero
  · rename_i hgo
    rw [if_neg hgo]
    trivial

omit [DecidableEq κ] in
/-- The word of the shadow for port `x` after the reports of port `y`. -/
theorem foldl_latch_other (hkeys : Keys c index) {x y : Bool} (hxy : x ≠ y) (a : BitVec 32) :
    ((apbEvent y (inputs M t i, wires t.bridge (inputs M t i))).foldl (latch c) m) (ramKeyOf c (portIx x) a) =
      m (ramKeyOf c (portIx x) a) := by
  rw [apbEvent_bench]
  split
  · rw [List.foldl_cons, List.foldl_nil, latch]
    split
    · exact Function.update_of_ne (fun h => hxy ((hkeys x y _ _).1 h).1) ..
    · rfl
  · rfl

/-- The word at port `x` after an edge is that of the shadow after its report. -/
theorem foldl_latch_self (hM : IsMemory M index word Inv) (hkeys : Keys c index) (hinv : Inv (t.slv x))
    (hm : ∀ a, word (t.slv x) (index a) = (m (ramKeyOf c (portIx x) a)).getD (word (slv₀ x) (index a)))
    (hok : ∀ obs ∈ apbEvent x (inputs M t i, wires t.bridge (inputs M t i)), obs.pwrite = true → obs.pslverr = false)
    (a : BitVec 32) : word (M.edge (t.slv x) (i.side x) (portIn t.bridge x)) (index a) =
      (((apbEvent x (inputs M t i, wires t.bridge (inputs M t i))).foldl (latch c) m)
        (ramKeyOf c (portIx x) a)).getD (word (slv₀ x) (index a)) := by
  rw [hM.store _ _ _ hinv]
  rw [apbEvent_bench] at hok ⊢
  have hout : M.out (t.slv x) (i.side x) (portIn t.bridge x) = slaveOut M t i x := rfl
  rw [Writes, hout]
  cases hgo : (portIn t.bridge x).psel && (portIn t.bridge x).penable && (slaveOut M t i x).pready with
  | false =>
    rw [Bool.false_and, if_neg Bool.false_ne_true, if_neg Bool.false_ne_true]
    exact hm a
  | true =>
    rw [hgo, if_pos rfl] at hok
    rw [Bool.true_and, if_pos rfl, List.foldl_cons, List.foldl_nil, latch]
    cases hw : (portIn t.bridge x).pwrite with
    | false =>
      rw [if_neg Bool.false_ne_true, if_neg (by simp)]
      exact hm a
    | true =>
      have herr : (slaveOut M t i x).pslverr = false := hok _ (List.mem_singleton_self _) hw
      rw [if_pos rfl, if_pos ⟨rfl, herr⟩, BitVec.setWidth_setWidth_of_le _ (by decide), BitVec.setWidth_eq]
      by_cases ha : index a = index (portIn t.bridge x).paddr
      · rw [(hkeys x x a _).2 ⟨rfl, ha⟩, Function.update_self, ha, Function.update_self]
        rfl
      · rw [Function.update_of_ne ha, Function.update_of_ne (fun h => ha ((hkeys x x a _).1 h).2)]
        exact hm a

/-! ### The scoreboard is silent -/

/-- Observations alone raise no alarm, whatever waits. -/
theorem silent_observed {s : Scoreboard.State} (hc : c.hasScoreboard = true)
    (hpred : ∀ p, s.predWr p = [] ∧ s.predRd p = []) (hzero : s.mismatch = 0) (p : Bool) (obss : List ApbTr) :
    Silent c s (obss.map (.apb p)) := by
  induction obss generalizing s with
  | nil => trivial
  | cons obs obss ih =>
    have hcall := call_apb (p := p) hc (hpred p).1 (hpred p).2 obs
    rw [List.map_cons, Silent, hcall]
    refine ⟨?_, fun h => (by cases h), ih ?_ ?_⟩
    · split <;> exact hzero
    · split <;> exact hpred
    · split <;> exact hzero

/-- The reports of transactions that follow the contract, beside slaves that answer every read with the stored word. -/
theorem silent_done (hc : c.Contract) {ts : List (Txn idWidth)} (hts : ∀ t ∈ ts, t.Follows)
    (hslaves : ∀ err, Answers c err m (ts.flatMap Txn.transfers)) :
    Silent c (quiet m) (ts.flatMap Txn.calls) ∧
      (ts.flatMap Txn.calls).foldl (call c) (quiet m) = quiet ((ts.flatMap Txn.transfers).foldl (latch c) m) := by
  induction ts generalizing m with
  | nil => exact ⟨trivial, rfl⟩
  | cons t ts ih =>
    simp only [List.flatMap_cons, answers_append] at hslaves
    obtain ⟨hiff, hrun⟩ := (hts t (List.mem_cons_self ..)).silent_iff hc (hslaves false).1
    have hsil := hiff.2 (hslaves true).1
    obtain ⟨hrest, hend⟩ := ih (fun t' ht' => hts t' (List.mem_cons_of_mem _ ht')) (fun err => (hslaves err).2)
    rw [List.flatMap_cons, List.flatMap_cons, silent_append, List.foldl_append, List.foldl_append, hrun hsil]
    exact ⟨⟨hsil, hrest⟩, hend⟩

/-- The same with a transaction that is not over. -/
theorem silent_history (hc : c.Contract) {h : History idWidth} (hf : ∀ t ∈ h.done, t.Follows)
    (hslaves : ∀ err, Answers c err m h.transfers) :
    Silent c (quiet m) h.calls ∧
      (h.current = none → h.calls.foldl (call c) (quiet m) = quiet (h.transfers.foldl (latch c) m)) := by
  have hdone : ∀ err, Answers c err m (h.done.flatMap Txn.transfers) := by
    intro err
    exact ((answers_append _).1 (hslaves err)).1
  obtain ⟨hsil, hrun⟩ := silent_done hc hf hdone
  constructor
  · rw [History.calls, silent_append, hrun]
    refine ⟨hsil, ?_⟩
    cases h.current with
    | none => trivial
    | some t =>
      rw [Option.toList_some, List.flatMap_singleton]
      exact silent_observed hc.hasScoreboard (fun _ => ⟨rfl, rfl⟩) rfl _ _
  · intro hcur
    rw [calls_of_none hcur, hrun, History.transfers, hcur]
    simp

/-- The transfers of a history are those of its events. -/
theorem events_apb (h : History idWidth) : h.events.apb = h.transfers := by
  have hfold : ∀ (e : Events idWidth) (l : List (Events idWidth)),
      (l.foldl Events.append e).apb = e.apb ++ l.flatMap (·.apb) := by
    intro e l
    induction l generalizing e with
    | nil => simp
    | cons f l ih => rw [List.foldl_cons, ih, List.flatMap_cons, ← List.append_assoc]; rfl
  have htxn : ∀ t : Txn idWidth, (txnEvents t).apb = t.transfers := fun t => by cases t <;> rfl
  have hstarted : ∀ t : Started idWidth, t.events.apb = t.transfers := fun t => by cases t <;> rfl
  rw [History.events, hfold, hfold, List.flatMap_map, List.flatMap_map, History.transfers]
  simp only [htxn, hstarted]
  rfl

theorem events_transfers (tr : List (BenchCycle idWidth ε)) :
    (events ((tr.map monitoredCycle).map sampled)).apb = transfers tr := by
  induction tr using List.reverseRecOn with
  | nil => rfl
  | append_singleton tr c ih =>
    rw [List.map_append, List.map_append, List.map_singleton, List.map_singleton, events_concat, transfers,
      List.flatMap_append, List.flatMap_singleton, ← transfers, ← ih]
    rfl

/-! ### Runs -/

/-- A bench and what it has shown so far. -/
structure Follows (c : Cfg) (index : BitVec 32 → κ) (word : σ → κ → BitVec 64) (Inv : σ → Prop) (slv₀ : Bool → σ)
    (tr : List (BenchCycle idWidth ε))
    (t : Bench idWidth σ) : Prop where
  exact : Exact (tr.map monitoredCycle) (t.bridge, t.mon)
  inv : ∀ x, Inv (t.slv x)
  mirrors : Mirrors c index word slv₀ ((transfers tr).foldl (latch c) fun _ => none) t.slv
  stored : ∀ obs ∈ transfers tr, obs.pwrite = true → obs.pslverr = false
  answers : ReadsKnown index (fun x => word (slv₀ x)) [] (transfers tr) →
    ∀ err, Answers c err (fun _ => none) (transfers tr)

/-- In this cycle no write ends with `PSLVERR`. -/
def NoFailedWrite (c : BenchCycle idWidth ε) : Prop :=
  ∀ obs ∈ apbEvent false (c.2.1, c.2.2.1) ++ apbEvent true (c.2.1, c.2.2.1), obs.pwrite = true → obs.pslverr = false

theorem follows_step (hM : IsMemory M index word Inv) (hkeys : Keys c index)
    {tr : List (BenchCycle idWidth ε)}
    (h : Follows c index word Inv slv₀ tr t) (hok : NoFailedWrite (i, (bench idWidth M).out t i)) :
    Follows c index word Inv slv₀ (tr ++ [(i, (bench idWidth M).out t i)]) ((bench idWidth M).step t i) := by
  have htr : transfers (tr ++ [(i, (bench idWidth M).out t i)]) = transfers tr ++
      (apbEvent false (inputs M t i, wires t.bridge (inputs M t i)) ++
        apbEvent true (inputs M t i, wires t.bridge (inputs M t i))) := by
    rw [transfers, List.flatMap_append, List.flatMap_singleton]
    rfl
  have hok0 := fun obs ho => hok obs (List.mem_append_left _ ho)
  have hok1 := fun obs ho => hok obs (List.mem_append_right _ ho)
  have hmid : ∀ a, word (t.slv true) (index a) =
      (((transfers tr ++ apbEvent false (inputs M t i, wires t.bridge (inputs M t i))).foldl (latch c)
        fun _ => none) (ramKeyOf c (portIx true) a)).getD (word (slv₀ true) (index a)) := by
    intro a
    rw [List.foldl_append, foldl_latch_other hkeys (by decide)]
    exact h.mirrors true a
  have hstored : ∀ obs ∈ transfers tr ++ apbEvent false (inputs M t i, wires t.bridge (inputs M t i)),
      obs.pwrite = true → obs.pslverr = false := by
    intro obs hobs
    rcases List.mem_append.1 hobs with hobs | hobs
    · exact h.stored obs hobs
    · exact hok0 obs hobs
  constructor
  · rw [List.map_append]
    exact exact_step h.exact (inputs M t i, i.race)
  · intro x
    exact hM.inv_edge _ _ _ (h.inv x)
  · intro x a
    rw [htr, ← List.append_assoc, List.foldl_append]
    cases x with
    | false =>
      rw [foldl_latch_other hkeys (by decide), List.foldl_append]
      exact foldl_latch_self hM hkeys (h.inv false) (h.mirrors false) hok0 a
    | true => exact foldl_latch_self hM hkeys (h.inv true) hmid hok1 a
  · intro obs hobs
    rw [htr, ← List.append_assoc] at hobs
    rcases List.mem_append.1 hobs with hobs | hobs
    · exact hstored obs hobs
    · exact hok1 obs hobs
  · intro hreads err
    rw [htr, ← List.append_assoc] at hreads ⊢
    rw [readsKnown_append, readsKnown_append, List.nil_append, List.nil_append] at hreads
    obtain ⟨⟨hbefore, hreads0⟩, hreads1⟩ := hreads
    rw [answers_append, answers_append]
    exact ⟨⟨h.answers hbefore err, answers_event hM hkeys (h.mirrors false) h.stored hreads0 err⟩,
      answers_event hM hkeys hmid hstored hreads1 err⟩

/-- The bench after reset, over any contents of the memories. -/
def initial (M : SlavePort slaveWidths ε σ) (s₀ : Burst.State (contract idWidth)) (slv : Bool → σ) : Bench idWidth σ :=
  ⟨s₀, .new, fun x => M.reset (slv x)⟩

theorem follows_run (hM : IsMemory M index word Inv) (hkeys : Keys c index) {s₀ : Burst.State (contract idWidth)}
    (h0 : Burst.IsReset s₀) {slv : Bool → σ} (is : List (BenchIn idWidth ε))
    (hok : ∀ c ∈ (bench idWidth M).trace (initial M s₀ slv) is, NoFailedWrite c) :
    Follows c index word Inv slv ((bench idWidth M).trace (initial M s₀ slv) is)
      ((bench idWidth M).run (initial M s₀ slv) is) := by
  have hfirst : Follows c index word Inv slv ([] : List (BenchCycle idWidth ε)) (initial M s₀ slv) := by
    refine ⟨exact_initial h0, fun x => hM.inv_reset _, fun x a => ?_, fun _ h => (by cases h), fun _ _ => trivial⟩
    rw [initial, hM.word_reset]
    rfl
  exact Machine.track (I := Follows c index word Inv slv) (fun _ _ _ h hok => follows_step hM hkeys h hok) hfirst hok

omit [DecidableEq κ] in
/-- If it reads known words only, what the monitors of a bench deliver raises no alarm, and none at the end if no
transaction is open then and all are reported. -/
theorem Follows.silent (hc : c.Contract)
    {tr : List (BenchCycle idWidth ε)}
    (h : Follows c index word Inv slv₀ tr t)
    (hreads : ReadsKnown index (fun x => word (slv₀ x)) [] (transfers tr)) :
    Silent c .new (calls tr) ∧
      ((benchHistory tr).current = none → calls tr = (benchHistory tr).calls →
        (reportPhase c (after c (calls tr))).mismatch = 0) := by
  have htransfers : (benchHistory tr).transfers = transfers tr := by
    rw [← events_apb, benchHistory, h.exact.events, events_transfers]
  obtain ⟨hsil, hend⟩ := silent_history hc (m := fun _ => none) (h := benchHistory tr) h.exact.follows
    (fun err => htransfers ▸ h.answers hreads err)
  constructor
  · rcases h.exact.late with heq | ⟨u, -, -, heq⟩
    · rw [calls, heq]
      exact hsil
    · -- the report that is still to come is left out
      have hall : Silent c .new (calls tr ++ [u.axi]) := by
        rw [calls, heq]
        exact hsil
      exact ((silent_append _ _).1 hall).1
  · intro hcur heq
    have hafter : after c (calls tr) = quiet ((benchHistory tr).transfers.foldl (latch c) fun _ => none) := by
      rw [heq]
      exact hend hcur
    rw [hafter, reportPhase, hc.hasScoreboard]
    rfl

end

/-! ### The two benches -/

section
variable {idWidth : Nat}

/-- `apb_dual_mem_burst` never answers with `PSLVERR`. -/
theorem noFailedWrite_burst (t : Bench idWidth (BitVec 8 → BitVec 64)) (i : BenchIn idWidth Unit) :
    NoFailedWrite (i, (bench idWidth (apbDualMemBurst slaveWidths)).out t i) := by
  intro obs hobs _
  have herr : ∀ x, ∀ obs ∈ apbEvent x (inputs (apbDualMemBurst slaveWidths) t i,
      wires t.bridge (inputs (apbDualMemBurst slaveWidths) t i)), obs.pslverr = false := by
    intro x obs hobs
    rw [apbEvent_bench] at hobs
    split at hobs
    · rw [List.mem_singleton.1 hobs]
      rfl
    · cases hobs
  rcases List.mem_append.1 hobs with hobs | hobs
  · exact herr false obs hobs
  · exact herr true obs hobs

/-- `tb_uvm_burst`: whatever the memories hold at first, whatever the master does and in whatever order the processes wake,
if no word is read before it is written, or it was 0, the scoreboard raises no alarm, and the report at the end raises none
if all transactions are over and reported. -/
theorem burst_bench_silent {s₀ : Burst.State (contract idWidth)} (h0 : Burst.IsReset s₀)
    (mem : Bool → BitVec 8 → BitVec 64) (is : List (BenchIn idWidth Unit))
    (hreads : ReadsKnown (fun a => a.extractLsb' 2 8) mem []
      (transfers ((bench idWidth (apbDualMemBurst slaveWidths)).trace (initial (apbDualMemBurst slaveWidths) s₀ mem) is))) :
    let tr := (bench idWidth (apbDualMemBurst slaveWidths)).trace (initial (apbDualMemBurst slaveWidths) s₀ mem) is
    Silent {} .new (calls tr) ∧
      ((benchHistory tr).current = none → calls tr = (benchHistory tr).calls →
        (reportPhase {} (after {} (calls tr))).mismatch = 0) := by
  have hok : ∀ c ∈ (bench idWidth (apbDualMemBurst slaveWidths)).trace
      (initial (apbDualMemBurst slaveWidths) s₀ mem) is, NoFailedWrite c :=
    Machine.trace_invariant (I := fun _ => True) (fun t i (_ : True) _ => ⟨noFailedWrite_burst t i, trivial⟩) trivial
      (fun _ _ => trivial)
  exact (follows_run (isMemory_alwaysReady slaveWidths) keys_burst h0 is hok).silent ⟨rfl, rfl, rfl, rfl⟩ hreads

/-- The settings of `test_bridge_burst_ext`. -/
def extCfg : Cfg := { apbMemAddrMsb := 12, apbMemAddrLsb := 3 }

/-- `tb_uvm_burst_ext`: the same with any wait states, and errors in reads. -/
theorem ext_bench_silent {s₀ : Burst.State (contract idWidth)} (h0 : Burst.IsReset s₀)
    (mem : Bool → BitVec 10 → BitVec 64) (is : List (BenchIn idWidth Side))
    (hok : ∀ obs ∈ transfers ((bench idWidth (apbExtMemDual slaveWidths)).trace
      (initial (apbExtMemDual slaveWidths) s₀ mem) is), obs.pwrite = true → obs.pslverr = false)
    (hreads : ReadsKnown (fun a => a.extractLsb' 3 10) mem []
      (transfers ((bench idWidth (apbExtMemDual slaveWidths)).trace (initial (apbExtMemDual slaveWidths) s₀ mem) is))) :
    let tr := (bench idWidth (apbExtMemDual slaveWidths)).trace (initial (apbExtMemDual slaveWidths) s₀ mem) is
    Silent extCfg .new (calls tr) ∧
      ((benchHistory tr).current = none → calls tr = (benchHistory tr).calls →
        (reportPhase extCfg (after extCfg (calls tr))).mismatch = 0) :=
  (follows_run (isMemory_ext slaveWidths) keys_ext h0 is fun c hc obs hobs =>
    hok obs (List.mem_flatMap.2 ⟨c, hc, hobs⟩)).silent ⟨rfl, rfl, rfl, rfl⟩ hreads

/-- A write of two beats without `WLAST`, and a read of its second word, all processes in the worst order.  The memories
hold ones at first. -/
theorem burst_bench_silent_readback :
    let r := In.ready (contract 4)
    let q : Req (contract 4) := ⟨5, 0x1000, 1, 0b011, 0b01, 0⟩
    let axi := [r.withAw q, r.withW ⟨0x11, 0xff, false⟩, r, r, r.withW ⟨0x22, 0xff, false⟩, r, r, r, r,
      r.withAr { q with addr := 0x1008, len := 0 }, r, r, r, r, r]
    let is : List (BenchIn 4 Unit) := axi.map (⟨·, ⟨false, false, false, false⟩, fun _ => ()⟩)
    let tr := (bench 4 (apbDualMemBurst slaveWidths)).trace
      (initial (apbDualMemBurst slaveWidths) (Burst.State.zero _) fun _ _ => BitVec.allOnes 64) is
    (calls tr).length = 5 ∧ Silent {} .new (calls tr) :=
  ⟨by decide +kernel, (burst_bench_silent (Burst.isReset_zero (contract 4)) _ _ (by decide +kernel)).1⟩

/-- The same with a wait state, and an error in the read. -/
theorem ext_bench_silent_error :
    let r := In.ready (contract 4)
    let q : Req (contract 4) := ⟨5, 0x1000, 0, 0b011, 0b01, 0⟩
    let axi := [r.withAw q, r.withW ⟨0x11, 0xff, true⟩, r, r, r, r, r, r.withAr q, r, r, r, r, r]
    let is : List (BenchIn 4 Side) := axi.zipIdx.map fun p => ⟨p.1, ⟨false, false, false, false⟩, fun _ => ⟨p.2 != 3, p.2 > 7⟩⟩
    let tr := (bench 4 (apbExtMemDual slaveWidths)).trace
      (initial (apbExtMemDual slaveWidths) (Burst.State.zero _) fun _ _ => BitVec.allOnes 64) is
    (calls tr).length = 4 ∧ Silent extCfg .new (calls tr) :=
  ⟨by decide +kernel, (ext_bench_silent (Burst.isReset_zero (contract 4)) _ _ (by decide +kernel) (by decide +kernel)).1⟩

end

end AxiApb.TestBench
