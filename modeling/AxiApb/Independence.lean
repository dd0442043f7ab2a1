import AxiApb.BurstSafety
import AxiApb.SimpleSafety

/-!
# What the bridges do not depend on

Two properties of pairs of runs, for both bridges.  A bridge that serves nothing is in one phase of its transaction
machine, whatever its registers hold, so that nothing of the past is seen (`history_free`).  The inputs of an APB port
are read only where its transfer ends, so that runs whose inputs differ elsewhere are the same (`apb_inputs`).
-/

namespace AxiApb

open Clocked

variable {P : Params}

/-! ### History -/

namespace Burst

/-- The bridge with its reset line `ARESETn`. -/
def resetBridge (P : Params) : Machine (Bool × In P) (Out P) (State P) := (bridge P).withReset reset

/-- No transaction is in progress, in a state that is reached from a reset or is the result of one. -/
def Quiescent (s : State P) : Prop := s.txnActive = false ∧ (Reachable s ∨ IsReset s)

theorem resetBridge_simulation (P : Params) :
    Simulation (resetBridge P) ((engine P).withReset fun _ => .idle) Rel :=
  (bridge_simulation P).withReset (fun _ => rel_reset ⟨_, rfl⟩)

theorem Quiescent.rel {s : State P} (h : Quiescent s) : Rel s .idle := by
  obtain ⟨hact, hs | hs⟩ := h
  · obtain ⟨ph, hr⟩ := hs.rel
    have ht := hr.txn
    cases ph with
    | idle => exact hr
    | wdata | wapb | wresp | rerr => rw [ht.active] at hact; cases hact
    | rfetch | rapb | rbuf => rw [ht.1.active] at hact; cases hact
  · exact rel_reset hs

end Burst

namespace Simple

def resetBridge (P : Params) : Machine (Bool × In P) (Out P) (State P) := (bridge P).withReset reset

def Quiescent (s : State P) : Prop :=
  s.state = .idle ∧ s.awPending = false ∧ s.wPending = false ∧ (Reachable s ∨ IsReset s)

theorem resetBridge_simulation (P : Params) :
    Simulation (resetBridge P) ((engine P).withReset fun _ => .idle none none) Rel :=
  (bridge_simulation P).withReset (fun _ => rel_reset ⟨_, rfl⟩)

theorem Quiescent.rel {s : State P} (h : Quiescent s) : Rel s (.idle none none) := by
  obtain ⟨hst, haw, hw, hs | hs⟩ := h
  · obtain ⟨ph, hr⟩ := hs.rel
    have hcode := hr.code
    rw [hst] at hcode
    rw [hr.aw] at haw
    rw [hr.w] at hw
    cases ph with
    | idle aw w =>
      obtain rfl : aw = none := Option.isNone_iff_eq_none.1 (Option.isSome_eq_false_iff.1 haw)
      obtain rfl : w = none := Option.isNone_iff_eq_none.1 (Option.isSome_eq_false_iff.1 hw)
      exact hr
    | err | wapb | wresp | rapb | rresp => cases hcode
  · exact rel_reset hs

end Simple

/-- Quiescent states of a bridge show the same outputs in every cycle, whatever comes in, resets included. -/
theorem history_free (P : Params) :
    (∀ s t : Burst.State P, Burst.Quiescent s → Burst.Quiescent t → ∀ is,
      (Burst.resetBridge P).trace s is = (Burst.resetBridge P).trace t is) ∧
    ∀ s t : Simple.State P, Simple.Quiescent s → Simple.Quiescent t → ∀ is,
      (Simple.resetBridge P).trace s is = (Simple.resetBridge P).trace t is :=
  ⟨fun _ _ hs ht is => (Burst.resetBridge_simulation P).trace_congr hs.rel ht.rel is,
    fun _ _ hs ht is => (Simple.resetBridge_simulation P).trace_congr hs.rel ht.rel is⟩

/-- A bridge that was just reset, and one that has served a write. -/
theorem history_free_after_write :
    let r := In.ready (contract 4)
    let aw := r.withAw ⟨5, 0x80001000, 0, 0b011, 0b01, 0b010⟩
    let w := r.withW ⟨7, 0xff, true⟩
    let is := [(true, r.withAr ⟨6, 0x1008, 0, 0b011, 0b01, 0b010⟩), (true, r), (true, r), (false, r), (true, aw)]
    (Burst.resetBridge _).trace (.zero _) is =
        (Burst.resetBridge _).trace ((Burst.bridge _).run (.zero _) [aw, w, r, r, r, r]) is ∧
      (Simple.resetBridge _).trace (.zero _) is =
        (Simple.resetBridge _).trace ((Simple.bridge _).run (.zero _) [aw, w, r, r, r, r, r]) is :=
  ⟨(history_free _).1 _ _ ⟨rfl, Or.inr (Burst.isReset_zero _)⟩
      ⟨by decide +kernel, Or.inl ((Burst.reachable_zero _).run _)⟩ _,
    (history_free _).2 _ _ ⟨rfl, rfl, rfl, Or.inr (Simple.isReset_zero _)⟩
      ⟨by decide +kernel, by decide +kernel, by decide +kernel, Or.inl ((Simple.reachable_zero _).run _)⟩ _⟩

/-! ### APB inputs -/

/-- The same AXI inputs, and the same APB inputs where the ports of the first cycle ask for them. -/
def SameSeen (c d : Cycle P) : Prop := SameAxi c.1 d.1 ∧ SameApb c.2.apb c.1 d.1

instance (c d : Cycle P) : Decidable (SameSeen c d) := inferInstanceAs (Decidable (_ ∧ _))

/-- A machine whose outputs depend on the AXI inputs, whose ports are seen on the APB outputs, and whose edges read the
APB inputs only where a port asks for them. -/
private theorem sameRuns_of_ports {σ : Type*} {M : Machine (In P) (Out P) σ} {I : σ → Prop} {p : σ → Bool → Port P}
    (hI : ∀ s i, I s → I (M.step s i)) (hout : ∀ s i j, SameAxi i j → M.out s i = M.out s j)
    (hport : ∀ s i x, (M.out s i).apb x = (p s x).view)
    (hstep : ∀ s i j, I s → SameAxi i j → SameApb (fun x => (p s x).view) i j → M.step s i = M.step s j)
    {s : σ} {is js : List (In P)} (hs : I s) (h : List.Forall₂ SameSeen (M.trace s is) (M.trace s js)) :
    M.SameRuns s is js := by
  refine Machine.sameRuns_of_agree hI (fun s i j hs hseen => ?_) hs h
  obtain ⟨hax, hap⟩ := hseen
  have hview : (M.out s i).apb = fun x => (p s x).view := funext (hport s i)
  exact ⟨hout s i j hax, hstep s i j hs hax (hview ▸ hap)⟩

/-- Two runs from one state after a reset, whose inputs agree cycle by cycle where a port asks for them, are the
same: registers and outputs. -/
theorem apb_inputs (P : Params) :
    (∀ (s₀ : Burst.State P) (is js : List (In P)), Burst.IsReset s₀ →
      List.Forall₂ SameSeen ((Burst.bridge P).trace s₀ is) ((Burst.bridge P).trace s₀ js) →
      (Burst.bridge P).SameRuns s₀ is js) ∧
    ∀ (s₀ : Simple.State P) (is js : List (In P)), Simple.IsReset s₀ →
      List.Forall₂ SameSeen ((Simple.bridge P).trace s₀ is) ((Simple.bridge P).trace s₀ js) →
      (Simple.bridge P).SameRuns s₀ is js := by
  refine ⟨fun s₀ is js h0 h => ?_, fun s₀ is js h0 h => ?_⟩
  · refine sameRuns_of_ports (I := Burst.Reachable) (p := fun s => s.port) (fun _ i hs => hs.posedge i)
      (fun s i j hax => ?_) (fun s i x => ?_) (fun s i j hs => ?_) ⟨s₀, [], h0, by simp, rfl⟩ h
    · rw [show i = _ from hax]
      rfl
    · cases x <;> rfl
    · obtain ⟨ph, hr⟩ := hs.rel
      exact Burst.posedge_congr hr
  · refine sameRuns_of_ports (I := Simple.Reachable) (p := fun s => s.port) (fun _ i hs => hs.posedge i)
      (fun s i j hax => ?_) (fun s i x => ?_) (fun s i j hs => ?_) ⟨s₀, [], h0, by simp, rfl⟩ h
    · rw [show i = _ from hax]
      rfl
    · cases x <;> rfl
    · obtain ⟨ph, hr⟩ := hs.rel
      exact Simple.posedge_congr hr

/-- A read at port 1, with other values on port 0, and on port 1 before the access phase. -/
theorem apb_inputs_read :
    let r := { In.ready (contract 4) with prdata1 := 9 }
    let noise := { r with prdata0 := 3, pslverr0 := true, pready0 := false }
    let early := { noise with prdata1 := 5, pslverr1 := true, pready1 := false }
    let ar := fun i : In (contract 4) => i.withAr ⟨6, 0x80001008, 0, 0b011, 0b01, 0b010⟩
    (Burst.bridge _).SameRuns (.zero _) [ar r, r, r, r, r, r] [ar early, early, early, noise, early, early] ∧
      (Simple.bridge _).SameRuns (.zero _) [ar r, r, r, r, r] [ar early, early, noise, early, early] :=
  ⟨(apb_inputs _).1 _ _ _ (Burst.isReset_zero _) (by decide +kernel),
    (apb_inputs _).2 _ _ _ (Simple.isReset_zero _) (by decide +kernel)⟩

end AxiApb
