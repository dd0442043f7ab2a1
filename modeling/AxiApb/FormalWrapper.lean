import AxiApb.ApbProtocol

/-!
# The formal wrappers

`apb4_burst_props` and `apb4_simple_props` put a bridge beside registers that watch its wires, and check what they see
at each clock edge.  This file has what the two wrappers share: the machine made of a bridge and such registers, with
`f_past_valid` and `$past`; the checks P1 to P5; the counters of waiting and stalled cycles.  A bridge that refines a
transaction machine is seen by its wrapper as that machine, at every edge of every run (`seen_of_trace`).
-/

namespace AxiApb.Formal

open Clocked

variable {P : Params}

/-! ### A wrapped bridge -/

/-- The registers of the bridge, those of the wrapper that are reset with it, `f_past_valid`, and what `$past` shows. -/
structure State (P : Params) (σ κ : Type*) where
  dut : σ
  watch : κ
  pastValid : Bool
  pastResetn : Bool
  past : Cycle P

/-- What a clock edge samples. -/
structure Edge (P : Params) (κ : Type*) where
  resetn : Bool
  now : Cycle P
  watch : κ
  pastValid : Bool
  pastResetn : Bool
  past : Cycle P

section
variable {σ φ κ : Type*}

/-- The bridge `M` with registers that are `zero` in reset and take `next` at the other edges. -/
def wrapper (M : Machine (In P) (Out P) σ) (reset : σ → σ) (zero : κ) (next : κ → Cycle P → κ) :
    Machine (Bool × In P) (Edge P κ) (State P σ κ) where
  step h i :=
    { dut := (M.withReset reset).step h.dut i
      watch := if i.1 then next h.watch (i.2, M.out h.dut i.2) else zero
      pastValid := true
      pastResetn := i.1
      past := (i.2, (M.withReset reset).out h.dut i) }
  out h i :=
    { resetn := i.1
      now := (i.2, (M.withReset reset).out h.dut i)
      watch := if i.1 then h.watch else zero
      pastValid := h.pastValid
      pastResetn := h.pastResetn
      past := h.past }

/-- `if (!f_past_valid) assume (!ARESETn)` -/
def Edge.Starts (e : Edge P κ) : Prop := e.pastValid = false → e.resetn = false

instance (e : Edge P κ) : Decidable e.Starts := inferInstanceAs (Decidable (_ → _))

/-- `f_past_valid && ARESETn` -/
def Edge.live (e : Edge P κ) : Bool := e.pastValid && e.resetn

/-- `f_past_valid && $past(ARESETn) && ARESETn` -/
def Edge.checked (e : Edge P κ) : Bool := e.pastValid && e.pastResetn && e.resetn

/-- The edge is one of the transaction machine `N` in phase `ph`, and so was the one before it, outside reset. -/
structure Seen (N : Machine (In P) (Out P) φ) (I : κ → φ → Prop) (e : Edge P κ) (ph : φ) : Prop where
  now : e.now.2 = N.out ph e.now.1
  inv : I e.watch ph
  past : e.pastResetn = true → ∃ ph₀, e.past.2 = N.out ph₀ e.past.1 ∧ ph = N.step ph₀ e.past.1

/-- The registers of a wrapped bridge after its first edge. -/
structure Tracked (N : Machine (In P) (Out P) φ) (R : σ → φ → Prop) (I : κ → φ → Prop) (h : State P σ κ) (ph : φ) :
    Prop where
  rel : R h.dut ph
  inv : I h.watch ph
  past : h.pastResetn = true → ∃ ph₀, h.past.2 = N.out ph₀ h.past.1 ∧ ph = N.step ph₀ h.past.1

variable {M : Machine (In P) (Out P) σ} {N : Machine (In P) (Out P) φ} {R : σ → φ → Prop} {I : κ → φ → Prop}
  {A : κ → Cycle P → Prop} {reset : σ → σ} {zero : κ} {next : κ → Cycle P → κ} {idle : φ}

/-- An edge outside reset is an edge of the bridge and of the watching registers. -/
theorem wrapper_step (h : State P σ κ) (i : In P) : (wrapper M reset zero next).step h (true, i) =
    ⟨M.step h.dut i, next h.watch (i, M.out h.dut i), true, true, (i, M.out h.dut i)⟩ := rfl

/-- What an edge must meet: the run starts in reset, and `A` holds of the edges after that. -/
def Edge.Meets (A : κ → Cycle P → Prop) (e : Edge P κ) : Prop := e.Starts ∧ (e.live = true → A e.watch e.now)

/-- An invariant `I` of the watching registers and the phase that is kept at every edge whose cycle satisfies `A`. -/
structure Keeps (M : Machine (In P) (Out P) σ) (N : Machine (In P) (Out P) φ) (R : σ → φ → Prop) (I : κ → φ → Prop)
    (A : κ → Cycle P → Prop) (reset : σ → σ) (zero : κ) (next : κ → Cycle P → κ) (idle : φ) : Prop where
  sim : Simulation M N R
  reset : ∀ s, R (reset s) idle
  zero : I zero idle
  next : ∀ k ph i, I k ph → A k (i, N.out ph i) → I (next k (i, N.out ph i)) (N.step ph i)

theorem tracked_step (hk : Keeps M N R I A reset zero next idle) {h : State P σ κ} {i : Bool × In P}
    (hh : h.pastValid = true → ∃ ph, Tracked N R I h ph)
    (hmeets : ((wrapper M reset zero next).out h i).Meets A) :
    ∃ ph, Tracked N R I ((wrapper M reset zero next).step h i) ph := by
  by_cases hr : i.1 = true
  · have hv : h.pastValid = true := by
      by_contra hv
      have hlow : i.1 = false := hmeets.1 (Bool.eq_false_iff.2 hv)
      rw [hr] at hlow
      cases hlow
    obtain ⟨ph, ht⟩ := hh hv
    have ho : M.out h.dut i.2 = N.out ph i.2 := hk.sim.out i.2 ht.rel
    have ha : A h.watch (i.2, N.out ph i.2) := by
      have := hmeets.2 (by simp [wrapper, Edge.live, hv, hr])
      simpa [wrapper, Machine.withReset, hr, ho] using this
    refine ⟨N.step ph i.2, ?_, ?_, fun _ => ⟨ph, ?_, rfl⟩⟩
    · show R (if i.1 then M.step h.dut i.2 else reset h.dut) _
      rw [if_pos hr]
      exact hk.sim.step i.2 ht.rel
    · show I (if i.1 then next h.watch (i.2, M.out h.dut i.2) else zero) _
      rw [if_pos hr, ho]
      exact hk.next h.watch ph i.2 ht.inv ha
    · show M.out (if i.1 then h.dut else reset h.dut) i.2 = N.out ph i.2
      rw [if_pos hr, ho]
  · refine ⟨idle, ?_, ?_, fun h1 => absurd h1 hr⟩
    · show R (if i.1 then M.step h.dut i.2 else reset h.dut) idle
      rw [if_neg hr]
      exact hk.reset h.dut
    · show I (if i.1 then next h.watch (i.2, M.out h.dut i.2) else zero) idle
      rw [if_neg hr]
      exact hk.zero

/-- The registers after a run that meets `A`. -/
theorem tracked_run (hk : Keeps M N R I A reset zero next idle) {h : State P σ κ} {is : List (Bool × In P)}
    (hpast : h.pastValid = false) (hmeets : ∀ c ∈ (wrapper M reset zero next).trace h is, c.2.Meets A) :
    ((wrapper M reset zero next).run h is).pastValid = true →
      ∃ ph, Tracked N R I ((wrapper M reset zero next).run h is) ph :=
  Machine.run_while (I := fun h : State P σ κ => h.pastValid = true → ∃ ph, Tracked N R I h ph)
    (fun _ _ hh hok _ => tracked_step hk hh hok) (fun ht => by rw [hpast] at ht; cases ht) hmeets

/-- The edges of a run that meets `A`. -/
theorem seen_of_trace (hk : Keeps M N R I A reset zero next idle) {h : State P σ κ} {is : List (Bool × In P)}
    (hpast : h.pastValid = false) (hmeets : ∀ c ∈ (wrapper M reset zero next).trace h is, c.2.Meets A) :
    ∀ c ∈ (wrapper M reset zero next).trace h is, c.2.live = true → ∃ ph, Seen N I c.2 ph := by
  refine Machine.trace_while (I := fun h : State P σ κ => h.pastValid = true → ∃ ph, Tracked N R I h ph)
    (fun h i hh hok => ⟨fun hlive => ?_, fun _ => tracked_step hk hh hok⟩) (fun ht => by rw [hpast] at ht; cases ht)
    hmeets
  obtain ⟨hv, hr⟩ : h.pastValid = true ∧ i.1 = true := by simpa [wrapper, Edge.live] using hlive
  obtain ⟨ph, ht⟩ := hh hv
  refine ⟨ph, ?_, ?_, ht.past⟩
  · show M.out (if i.1 then h.dut else reset h.dut) i.2 = _
    rw [if_pos hr]
    exact hk.sim.out i.2 ht.rel
  · show I (if i.1 then h.watch else zero) ph
    rw [if_pos hr]
    exact ht.inv

end

/-! ### The checks P1 to P5 -/

/-- The checks of both wrappers on a cycle and the one before it. -/
structure PortChecks (past now : Cycle P) : Prop where
  /-- P1: the setup phase lasts one cycle. -/
  setup : ∀ x, (past.2.apb x).psel = true → (past.2.apb x).penable = false → (now.2.apb x).penable = true
  /-- P2: a transfer completes cleanly. -/
  complete : ∀ x, (past.2.apb x).psel = true → (past.2.apb x).penable = true → past.1.pready x = true →
    (now.2.apb x).psel = false ∧ (now.2.apb x).penable = false
  /-- P3: at most one port is active. -/
  exclusive : ¬ ((now.2.apb false).psel = true ∧ (now.2.apb true).psel = true) ∧
    ¬ ((now.2.apb false).penable = true ∧ (now.2.apb true).penable = true)
  /-- P4 and P5: `BVALID` and `RVALID` deassert after acceptance. -/
  bvalid : past.2.b.isSome = true → past.1.bready = true → now.2.b = none
  rvalid : past.2.r.isSome = true → past.1.rready = true → now.2.r = none

/-- Ports that keep the APB protocol, and responses that end when they are accepted. -/
theorem PortChecks.of_moves {past now : Cycle P}
    (hmove : ∀ x, ApbMove (past.2.apb x) (past.1.pready x) (now.2.apb x)) (hquiet : ∃ x, now.2.apb x = .quiet)
    (hb : past.2.b.isSome = true → past.1.bready = true → now.2.b = none)
    (hr : past.2.r.isSome = true → past.1.rready = true → now.2.r = none) : PortChecks past now where
  setup x hs he := by
    have hm := hmove x
    generalize past.2.apb x = p at hm hs he
    generalize past.1.pready x = ready at hm
    generalize now.2.apb x = n at hm
    cases hm with
    | enable => rfl
    | rest | start => cases hs
    | wait | done => cases he
  complete x hs he hp := by
    have hm := hmove x
    rw [hp] at hm
    generalize past.2.apb x = p at hm hs he
    generalize now.2.apb x = n at hm
    cases hm with
    | done => exact ⟨rfl, rfl⟩
    | rest | start => cases hs
    | enable => cases he
  exclusive := by
    obtain ⟨x, hx⟩ := hquiet
    cases x <;> simp [hx, PortView.quiet]
  bvalid := hb
  rvalid := hr

/-! ### Counters -/

/-- `go ? n + 1 : 0` -/
def count {w : Nat} (go : Bool) (n : BitVec w) : BitVec w := if go then n + 1 else 0

theorem count_toNat {w : Nat} {go : Bool} {n : BitVec w} (h : n.toNat + 1 < 2 ^ w) :
    (count go n).toNat = if go then n.toNat + 1 else 0 := by
  have h1 : (1#w).toNat = 1 := by
    rw [BitVec.toNat_ofNat]
    exact Nat.mod_eq_of_lt (by omega)
  unfold count
  split
  · show (n + 1#w).toNat = _
    rw [BitVec.toNat_add, h1]
    exact Nat.mod_eq_of_lt h
  · simp

/-- A counter that runs only while `rem` falls stays below the bound. -/
theorem count_le {w : Nat} {go : Bool} {n : BitVec w} {rem rem' bound : Nat} (hw : bound < 2 ^ w)
    (h : n.toNat + rem ≤ bound) (hgo : go = true → rem' + 1 ≤ rem) (hrest : go = false → rem' ≤ bound) :
    (count go n).toNat + rem' ≤ bound := by
  cases go with
  | true =>
    have := hgo rfl
    rw [count_toNat (by omega), if_pos rfl]
    omega
  | false =>
    have := hrest rfl
    show (0#w).toNat + rem' ≤ bound
    rw [BitVec.toNat_zero]
    omega

/-- A transfer is in its setup phase on port `x`. -/
def setupOn (x write : Bool) (c : Cycle P) : Bool :=
  (c.2.apb x).psel && !(c.2.apb x).penable && (c.2.apb x).ctrl.any (·.pwrite == write)

/-- `f_apb_wr_setup` and `f_apb_rd_setup` -/
def apbSetup (write : Bool) (c : Cycle P) : Bool := setupOn false write c || setupOn true write c

theorem apbSetup_quiet {c : Cycle P} (write : Bool) (h : ∀ x, c.2.apb x = .quiet) : apbSetup write c = false := by
  simp [apbSetup, setupOn, h, PortView.quiet]

theorem apbSetup_drive {c : Cycle P} {y en : Bool} {k : Ctrl P} (write : Bool)
    (h : ∀ x, c.2.apb x = if x = y then ⟨true, en, some k⟩ else .quiet) :
    apbSetup write c = (!en && (k.pwrite == write)) := by
  have hon : setupOn y write c = (!en && (k.pwrite == write)) := by
    simp [setupOn, h]
  have hoff : setupOn (!y) write c = false := by simp [setupOn, h, PortView.quiet]
  rw [apbSetup]
  cases y with
  | false => rw [hon, show setupOn true write c = false from hoff, Bool.or_false]
  | true => rw [hon, show setupOn false write c = false from hoff, Bool.false_or]

/-- The cycles from a setup phase to a response: `f_apb_wr_to_b` with `f_apb_wr_live`, likewise for reads. -/
structure Latency (w : Nat) where
  cycles : BitVec w
  live : Bool
deriving DecidableEq

def Latency.next {w : Nat} (l : Latency w) (start stop : Bool) : Latency w where
  cycles := if start then 0 else if l.live then l.cycles + 1 else l.cycles
  live := if stop then false else if start then true else l.live

/-- The latency in progress, if any, belongs to what is `active` and takes `rem` more cycles, `bound` in all. -/
def Latency.Within {w : Nat} (l : Latency w) (active : Bool) (rem bound : Nat) : Prop :=
  l.live = true → active = true ∧ l.cycles.toNat + rem ≤ bound

theorem Latency.within_zero {w : Nat} (active : Bool) (rem bound : Nat) :
    (⟨0, false⟩ : Latency w).Within active rem bound := by
  intro h
  cases h

theorem Latency.within_next {w : Nat} {l : Latency w} {start stop active active' : Bool} {rem rem' bound : Nat}
    (hw : bound < 2 ^ w) (h : l.Within active rem bound)
    (hstart : start = true → stop = false → active' = true ∧ rem' ≤ bound)
    (hgo : start = false → stop = false → active = true → active' = true ∧ rem' + 1 ≤ rem) :
    (l.next start stop).Within active' rem' bound := by
  intro hlive
  cases stop with
  | true => cases hlive
  | false =>
    cases start with
    | true =>
      obtain ⟨ha, hr⟩ := hstart rfl rfl
      exact ⟨ha, by simpa [Latency.next] using hr⟩
    | false =>
      have hl : l.live = true := hlive
      obtain ⟨ha, hr⟩ := h hl
      obtain ⟨ha', hr'⟩ := hgo rfl rfl ha
      have hc : (count true l.cycles).toNat = l.cycles.toNat + 1 := count_toNat (by omega)
      refine ⟨ha', ?_⟩
      show (if l.live then l.cycles + 1 else l.cycles).toNat + rem' ≤ bound
      rw [if_pos hl]
      show (count true l.cycles).toNat + rem' ≤ bound
      omega

/-- The counters of both wrappers; `w` is the width of the stall counters. -/
structure Timers (w : Nat) where
  p0Wait : BitVec 3
  p1Wait : BitVec 3
  bw : BitVec 3
  rw : BitVec 3
  awStall : BitVec w
  wStall : BitVec w
  arStall : BitVec w
  apbWr : Latency w
  apbRd : Latency 5
deriving DecidableEq

def Timers.zero (w : Nat) : Timers w := ⟨0, 0, 0, 0, 0, 0, 0, ⟨0, false⟩, ⟨0, false⟩⟩

/-- `rdStart` restarts the read latency. -/
def Timers.next {w : Nat} (t : Timers w) (rdStart : Bool) (c : Cycle P) : Timers w where
  p0Wait := count ((c.2.apb false).psel && (c.2.apb false).penable && !c.1.pready false) t.p0Wait
  p1Wait := count ((c.2.apb true).psel && (c.2.apb true).penable && !c.1.pready true) t.p1Wait
  bw := count (c.2.b.isSome && !c.1.bready) t.bw
  rw := count (c.2.r.isSome && !c.1.rready) t.rw
  awStall := count (c.1.awvalid && !c.2.awready) t.awStall
  wStall := count (c.1.wvalid && !c.2.wready) t.wStall
  arStall := count (c.1.arvalid && !c.2.arready) t.arStall
  apbWr := t.apbWr.next (apbSetup true c && !t.apbWr.live) c.2.b.isSome
  apbRd := t.apbRd.next rdStart c.2.r.isSome

def Timers.pWait {w : Nat} (t : Timers w) (x : Bool) : BitVec 3 := if x then t.p1Wait else t.p0Wait

/-- The partners answer within five cycles. -/
structure Timers.Prompt {w : Nat} (t : Timers w) : Prop where
  p0Wait : t.p0Wait < 5
  p1Wait : t.p1Wait < 5
  bw : t.bw < 5
  rw : t.rw < 5

instance {w : Nat} (t : Timers w) : Decidable t.Prompt :=
  decidable_of_iff (t.p0Wait < 5 ∧ t.p1Wait < 5 ∧ t.bw < 5 ∧ t.rw < 5)
    ⟨fun ⟨h0, h1, hb, hr⟩ => ⟨h0, h1, hb, hr⟩, fun h => ⟨h.p0Wait, h.p1Wait, h.bw, h.rw⟩⟩

section
variable {w : Nat} {t : Timers w}

theorem Timers.Prompt.pWait (h : t.Prompt) (x : Bool) : (t.pWait x).toNat < 5 := by
  cases x with
  | false => exact h.p0Wait
  | true => exact h.p1Wait

theorem Timers.pWait_next (r : Bool) (c : Cycle P) (x : Bool) (h : (t.pWait x).toNat < 5) :
    ((t.next r c).pWait x).toNat =
      if (c.2.apb x).psel && (c.2.apb x).penable && !c.1.pready x then (t.pWait x).toNat + 1 else 0 := by
  cases x with
  | false => exact count_toNat (by show t.p0Wait.toNat + 1 < 2 ^ 3; have : t.p0Wait.toNat < 5 := h; omega)
  | true => exact count_toNat (by show t.p1Wait.toNat + 1 < 2 ^ 3; have : t.p1Wait.toNat < 5 := h; omega)

end

end AxiApb.Formal
