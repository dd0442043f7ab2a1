import Mathlib

/-!
# Clocked machines

A synchronous circuit with one clock is a machine that reads its inputs and its registers, shows its outputs, and
loads the registers at the next edge.  This file fixes runs and traces of such machines and the rules by which
facts about single edges become facts about runs: invariants (`run_invariant`), properties of every cycle of a
trace (`trace_invariant`), relations between the trace so far and the present state (`track`), ranks (`rank_rule`),
agreement of two runs (`sameRuns_of_agree`), and simulations, which make two machines show the same trace
(`Simulation.trace_eq`).
-/

namespace Clocked

/-- A machine with inputs `ι`, outputs `ο` and registers `σ`; outputs may depend on the inputs of the cycle. -/
structure Machine (ι ο σ : Type*) where
  step : σ → ι → σ
  out : σ → ι → ο

variable {ι ο σ τ : Type*}

namespace Machine

variable (M : Machine ι ο σ)

/-- The registers after the edges with inputs `is`. -/
def run (s : σ) (is : List ι) : σ := is.foldl M.step s

/-- What is seen on the wires at these edges: the inputs and the outputs of each cycle. -/
def trace : σ → List ι → List (ι × ο)
  | _, [] => []
  | s, i :: is => (i, M.out s i) :: trace (M.step s i) is

/-- The states that runs from `Init` with inputs in `Env` reach. -/
def ReachableUnder (Init : σ → Prop) (Env : ι → Prop) (s : σ) : Prop :=
  ∃ s₀ is, Init s₀ ∧ (∀ i ∈ is, Env i) ∧ s = M.run s₀ is

/-- The states that runs from `Init` reach, whatever the inputs are. -/
def Reachable (Init : σ → Prop) (s : σ) : Prop := M.ReachableUnder Init (fun _ => True) s

@[simp] theorem run_nil (s : σ) : M.run s [] = s := rfl

@[simp] theorem run_cons (s : σ) (i : ι) (is : List ι) : M.run s (i :: is) = M.run (M.step s i) is := rfl

@[simp] theorem trace_nil (s : σ) : M.trace s [] = [] := rfl

@[simp] theorem trace_cons (s : σ) (i : ι) (is : List ι) :
    M.trace s (i :: is) = (i, M.out s i) :: M.trace (M.step s i) is := rfl

theorem run_append (s : σ) (is js : List ι) : M.run s (is ++ js) = M.run (M.run s is) js := by
  unfold run; exact List.foldl_append

theorem length_trace (s : σ) (is : List ι) : (M.trace s is).length = is.length := by
  induction is generalizing s with
  | nil => rfl
  | cons i is ih => rw [trace_cons, List.length_cons, List.length_cons, ih]

theorem trace_append (s : σ) (is js : List ι) :
    M.trace s (is ++ js) = M.trace s is ++ M.trace (M.run s is) js := by
  induction is generalizing s with
  | nil => rfl
  | cons i is ih => simp only [List.cons_append, trace_cons, run_cons, ih]

theorem run_concat (s : σ) (is : List ι) (i : ι) : M.run s (is ++ [i]) = M.step (M.run s is) i := by
  rw [run_append]; rfl

theorem trace_concat (s : σ) (is : List ι) (i : ι) :
    M.trace s (is ++ [i]) = M.trace s is ++ [(i, M.out (M.run s is) i)] := by
  rw [trace_append]; rfl

theorem trace_mono {is js : List ι} (h : js <+: is) (s : σ) : M.trace s js <+: M.trace s is := by
  obtain ⟨ks, rfl⟩ := h
  rw [trace_append]
  exact List.prefix_append _ _

/-- A cycle of a trace, with the runs before and after it. -/
theorem trace_split {s : σ} {is : List ι} {pre post : List (ι × ο)} {c : ι × ο}
    (h : M.trace s is = pre ++ c :: post) : ∃ js i ks, is = js ++ i :: ks ∧ M.trace s js = pre ∧
      c = (i, M.out (M.run s js) i) ∧ M.trace (M.step (M.run s js) i) ks = post := by
  induction is generalizing s pre with
  | nil => simp at h
  | cons i is ih =>
    rw [trace_cons] at h
    cases pre with
    | nil =>
      rw [List.nil_append, List.cons.injEq] at h
      exact ⟨[], i, is, rfl, rfl, h.1.symm, h.2⟩
    | cons p pre =>
      rw [List.cons_append, List.cons.injEq] at h
      obtain ⟨js, j, ks, his, hpre, hc, hpost⟩ := ih h.2
      refine ⟨i :: js, j, ks, ?_, ?_, hc, hpost⟩
      · rw [his, List.cons_append]
      · rw [trace_cons, hpre, h.1]

/-! ### From edges to runs -/

variable {M}

/-- What every edge preserves holds after every run. -/
theorem run_invariant {I : σ → Prop} {Env : ι → Prop} (hstep : ∀ s i, Env i → I s → I (M.step s i)) :
    ∀ {s : σ} {is : List ι}, I s → (∀ i ∈ is, Env i) → I (M.run s is) := by
  intro s is hs henv
  induction is generalizing s with
  | nil => exact hs
  | cons i is ih =>
    have hi : Env i := henv i (List.mem_cons_self ..)
    exact ih (hstep s i hi hs) (fun j hj => henv j (List.mem_cons_of_mem _ hj))

/-- What holds at reset and is preserved by every edge holds in every reachable state. -/
theorem ReachableUnder.invariant {Init I : σ → Prop} {Env : ι → Prop} (hinit : ∀ s, Init s → I s)
    (hstep : ∀ s i, Env i → I s → I (M.step s i)) {s : σ} (h : M.ReachableUnder Init Env s) : I s := by
  obtain ⟨s₀, is, h0, henv, rfl⟩ := h
  exact run_invariant hstep (hinit s₀ h0) henv

theorem ReachableUnder.step {Init : σ → Prop} {Env : ι → Prop} {s : σ} {i : ι}
    (h : M.ReachableUnder Init Env s) (hi : Env i) : M.ReachableUnder Init Env (M.step s i) := by
  obtain ⟨s₀, is, h0, henv, rfl⟩ := h
  refine ⟨s₀, is ++ [i], h0, ?_, (M.run_concat s₀ is i).symm⟩
  intro j hj
  rcases List.mem_append.1 hj with hj | hj
  · exact henv j hj
  · rw [List.mem_singleton.1 hj]; exact hi

theorem ReachableUnder.run {Init : σ → Prop} {Env : ι → Prop} {s : σ} {is : List ι}
    (h : M.ReachableUnder Init Env s) (his : ∀ i ∈ is, Env i) : M.ReachableUnder Init Env (M.run s is) :=
  run_invariant (fun _ _ hi hs => hs.step hi) h his

/-- A property `Q` of single cycles that an invariant implies holds of every cycle of a trace. -/
theorem trace_invariant {I : σ → Prop} {Env : ι → Prop} {Q : ι × ο → Prop}
    (hstep : ∀ s i, Env i → I s → Q (i, M.out s i) ∧ I (M.step s i)) {s : σ} {is : List ι} (hs : I s)
    (henv : ∀ i ∈ is, Env i) : ∀ c ∈ M.trace s is, Q c := by
  induction is generalizing s with
  | nil => intro c hc; cases hc
  | cons i is ih =>
    obtain ⟨hq, hs'⟩ := hstep s i (henv i (List.mem_cons_self ..)) hs
    intro c hc
    rcases List.mem_cons.1 hc with rfl | hc
    · exact hq
    · exact ih hs' (fun j hj => henv j (List.mem_cons_of_mem _ hj)) c hc

/-- A relation between the trace so far and the present state, kept by every edge whose cycle satisfies `Ok`,
holds along every run whose cycles all satisfy `Ok`. -/
theorem track {I : List (ι × ο) → σ → Prop} {Ok : ι × ο → Prop}
    (hstep : ∀ tr s i, I tr s → Ok (i, M.out s i) → I (tr ++ [(i, M.out s i)]) (M.step s i))
    {tr : List (ι × ο)} {s : σ} {is : List ι} (hs : I tr s) (hok : ∀ c ∈ M.trace s is, Ok c) :
    I (tr ++ M.trace s is) (M.run s is) := by
  induction is generalizing tr s with
  | nil => simpa using hs
  | cons i is ih =>
    have hi : Ok (i, M.out s i) := hok _ (List.mem_cons_self ..)
    have := ih (hstep tr s i hs hi) (fun c hc => hok c (List.mem_cons_of_mem _ hc))
    simpa using this

/-- What every edge preserves whose cycle satisfies `Ok` holds after a run whose cycles all satisfy `Ok`. -/
theorem run_while {I : σ → Prop} {Ok : ι × ο → Prop}
    (hstep : ∀ s i, I s → Ok (i, M.out s i) → I (M.step s i)) {s : σ} {is : List ι} (hs : I s)
    (hok : ∀ c ∈ M.trace s is, Ok c) : I (M.run s is) := by
  induction is generalizing s with
  | nil => exact hs
  | cons i is ih =>
    have hi : Ok (i, M.out s i) := hok _ (List.mem_cons_self ..)
    exact ih (hstep s i hs hi) (fun c hc => hok c (List.mem_cons_of_mem _ hc))

/-- A property `Q` of single cycles that such an invariant implies holds of every cycle of a run whose cycles all
satisfy `Ok`. -/
theorem trace_while {I : σ → Prop} {Ok Q : ι × ο → Prop}
    (hstep : ∀ s i, I s → Ok (i, M.out s i) → Q (i, M.out s i) ∧ I (M.step s i)) {s : σ} {is : List ι} (hs : I s)
    (hok : ∀ c ∈ M.trace s is, Ok c) : ∀ c ∈ M.trace s is, Q c := by
  induction is generalizing s with
  | nil => intro c hc; cases hc
  | cons i is ih =>
    obtain ⟨hq, hs'⟩ := hstep s i hs (hok _ (List.mem_cons_self ..))
    intro c hc
    rcases List.mem_cons.1 hc with rfl | hc
    · exact hq
    · exact ih hs' (fun d hd => hok d (List.mem_cons_of_mem _ hd)) c hc

/-- A rank on the active states that no edge raises, and that drops at every edge that is not a waiting one and
stays active, bounds the number of edges that are not waiting ones while the machine is active. -/
theorem rank_rule {I Active : σ → Prop} {wait : ι × ο → Bool} {rank : σ → Nat}
    (hinv : ∀ s i, I s → I (M.step s i))
    (hwait : ∀ s i, I s → Active s → wait (i, M.out s i) = true → rank (M.step s i) ≤ rank s)
    (hgo : ∀ s i, I s → Active s → wait (i, M.out s i) = false → Active (M.step s i) →
      rank (M.step s i) < rank s)
    {s : σ} {is : List ι} (hs : I s) (hact : ∀ js, js <+: is → Active (M.run s js)) :
    rank (M.run s is) + (M.trace s is).countP (fun c => !wait c) ≤ rank s := by
  induction is generalizing s with
  | nil => simp
  | cons i is ih =>
    have h0 : Active s := hact [] List.nil_prefix
    have h1 : Active (M.step s i) := hact [i] (List.cons_prefix_cons.2 ⟨rfl, List.nil_prefix⟩)
    have := ih (hinv s i hs) (fun js hjs => hact (i :: js) (List.cons_prefix_cons.2 ⟨rfl, hjs⟩))
    simp only [run_cons, trace_cons, List.countP_cons]
    cases hw : wait (i, M.out s i) with
    | true => have := hwait s i hs h0 hw; simp; omega
    | false => have := hgo s i hs h0 hw h1; simp; omega

/-! ### Two runs -/

/-- The runs of `s` with inputs `is` and `js` go through the same registers and show the same outputs. -/
def SameRuns (M : Machine ι ο σ) (s : σ) (is js : List ι) : Prop :=
  (∀ n, M.run s (is.take n) = M.run s (js.take n)) ∧ (M.trace s is).map Prod.snd = (M.trace s js).map Prod.snd

/-- Inputs that no edge can tell apart as long as the outputs are the same. -/
theorem sameRuns_of_agree {I : σ → Prop} {Agree : ι × ο → ι × ο → Prop} (hinv : ∀ s i, I s → I (M.step s i))
    (hstep : ∀ s i j, I s → Agree (i, M.out s i) (j, M.out s j) → M.out s i = M.out s j ∧ M.step s i = M.step s j)
    {s : σ} {is js : List ι} (hs : I s) (h : List.Forall₂ Agree (M.trace s is) (M.trace s js)) :
    M.SameRuns s is js := by
  induction is generalizing s js with
  | nil =>
    cases js with
    | nil => exact ⟨fun _ => rfl, rfl⟩
    | cons j js => cases h
  | cons i is ih =>
    cases js with
    | nil => cases h
    | cons j js =>
      rw [trace_cons, trace_cons, List.forall₂_cons] at h
      obtain ⟨hout, hnext⟩ := hstep s i j hs h.1
      have hrest := h.2
      rw [← hnext] at hrest
      obtain ⟨hrun, htrace⟩ := ih (hinv s i hs) hrest
      refine ⟨fun n => ?_, ?_⟩
      · cases n with
        | zero => rfl
        | succ n => rw [List.take_succ_cons, List.take_succ_cons, run_cons, run_cons, ← hnext, hrun]
      · rw [trace_cons, trace_cons, List.map_cons, List.map_cons, ← hnext, htrace, hout]

/-! ### A reset line -/

/-- `M` with a reset line, active low and asynchronous: while it is low the registers are those after `reset`. -/
def withReset (M : Machine ι ο σ) (reset : σ → σ) : Machine (Bool × ι) ο σ where
  step s i := if i.1 then M.step s i.2 else reset s
  out s i := M.out (if i.1 then s else reset s) i.2

end Machine

/-! ### Simulation -/

/-- `R` relates the registers of two machines with the same wires: related registers show the same outputs and
load related registers. -/
structure Simulation (M : Machine ι ο σ) (N : Machine ι ο τ) (R : σ → τ → Prop) : Prop where
  out : ∀ {s t} (i : ι), R s t → M.out s i = N.out t i
  step : ∀ {s t} (i : ι), R s t → R (M.step s i) (N.step t i)

namespace Simulation

variable {M : Machine ι ο σ} {N : Machine ι ο τ} {R : σ → τ → Prop}

theorem run (h : Simulation M N R) {s : σ} {t : τ} (hR : R s t) (is : List ι) : R (M.run s is) (N.run t is) := by
  induction is generalizing s t with
  | nil => exact hR
  | cons i is ih => exact ih (h.step i hR)

/-- Related registers show the same trace. -/
theorem trace_eq (h : Simulation M N R) {s : σ} {t : τ} (hR : R s t) (is : List ι) :
    M.trace s is = N.trace t is := by
  induction is generalizing s t with
  | nil => rfl
  | cons i is ih => simp only [Machine.trace_cons, h.out i hR, ih (h.step i hR)]

/-- Registers with a common counterpart show the same trace. -/
theorem trace_congr (h : Simulation M N R) {s s' : σ} {t : τ} (hs : R s t) (hs' : R s' t) (is : List ι) :
    M.trace s is = M.trace s' is :=
  (h.trace_eq hs is).trans (h.trace_eq hs' is).symm

/-- Machines that are reset to related registers stay in step over a reset. -/
theorem withReset (h : Simulation M N R) {f : σ → σ} {g : τ → τ} (hf : ∀ {s t}, R s t → R (f s) (g t)) :
    Simulation (M.withReset f) (N.withReset g) R where
  out := by
    rintro s t ⟨resetn, i⟩ hR
    cases resetn with
    | true => exact h.out i hR
    | false => exact h.out i (hf hR)
  step := by
    rintro s t ⟨resetn, i⟩ hR
    cases resetn with
    | true => exact h.step i hR
    | false => exact hf hR

/-- Every reachable state is related to some state of the other machine. -/
theorem reachable (h : Simulation M N R) {Init : σ → Prop} (hinit : ∀ s, Init s → ∃ t, R s t) {s : σ}
    (hs : M.Reachable Init s) : ∃ t, R s t := by
  refine Machine.ReachableUnder.invariant (I := fun s => ∃ t, R s t) hinit (fun s i _ ht => ?_) hs
  obtain ⟨t, hR⟩ := ht
  exact ⟨N.step t i, h.step i hR⟩

end Simulation

end Clocked
