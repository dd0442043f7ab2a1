import AxiApb.RegBlockSpec

/-!
# The register block as a store

Write and read channels run freely beside each other.  The W handshakes of a trace, each with the AW latched before
it, determine what the registers hold, and a read returns what they held at its AR handshake (`linearizable`).
-/

namespace AxiApb.RegBlock

open Clocked ByteStore

variable {P : Params}

/-! ### The writes of a trace -/

/-- The AW accepted last, and the accepted W beats, each with the AW that was the last one then. -/
structure Ledger (P : Params) where
  latched : Option (Req P)
  writes : List (Option (Req P) × WBeat P)

def Ledger.step (l : Ledger P) (c : Cycle P) : Ledger P :=
  ⟨(awTaken c).head?.or l.latched, l.writes ++ (wTaken c).map fun w => (l.latched, w)⟩

def ledger (tr : List (Cycle P)) : Ledger P := tr.foldl Ledger.step ⟨none, []⟩

/-- Data and strobes of a write. -/
abbrev Word := BitVec 32 × BitVec 4

/-- The register that a W beat is written to, with the beat: none if the latched address is out of range or `WID`
differs from the latched `AWID`. -/
def effect : Option (Req P) × WBeat P → List (BitVec 5 × Word)
  | (some q, w) => if inRange q.addr = true ∧ w.wid = q.id then [(regIndex q.addr, w.wdata, w.wstrb)] else []
  | (none, _) => []

def effects (tr : List (Cycle P)) : List (BitVec 5 × Word) := (ledger tr).writes.flatMap effect

/-- `WDATA` under `WSTRB`. -/
def applyStrobe (old : BitVec 32) (new : Word) : BitVec 32 := mergeBytes old new.1 new.2

/-- The fold of the writes to register `k`, from 0. -/
def held (tr : List (Cycle P)) (k : BitVec 5) : BitVec 32 := (writesTo k (effects tr)).foldl applyStrobe 0

/-! ### The machine follows the trace -/

section
variable {tr : List (Cycle P)} {ph : Phase P} {i : In P}

private theorem ledger_concat (tr : List (Cycle P)) (c : Cycle P) : ledger (tr ++ [c]) = (ledger tr).step c := by
  rw [ledger, List.foldl_append]
  rfl

/-- The store is the fold of what was written, and a write in progress has latched the last AW. -/
structure Follows (tr : List (Cycle P)) (ph : Phase P) : Prop where
  latched : ∀ q, ph.wr = .await q → (ledger tr).latched = some q
  mem : ph.mem = (effects tr).foldl (write applyStrobe) fun _ => 0

/-- A cycle without a W handshake. -/
private theorem effects_quiet (hw : ph.wr.wready = false) : effects (tr ++ [(i, ph.out i)]) = effects tr := by
  have hno : wTaken (i, ph.out i) = [] := by simp [wTaken, Phase.out, hw]
  rw [effects, ledger_concat, Ledger.step, hno]
  simp [effects]

/-- A stored write is one more step of the fold. -/
private theorem store_eq (q : Req P) (w : WBeat P) (m : RegFile) :
    q.store w m = (effect (some q, w)).foldl (write applyStrobe) m := by
  rw [Req.store, effect]
  by_cases h : inRange q.addr = true ∧ w.wid = q.id
  · rw [if_pos h]
    exact if_pos h
  · rw [if_neg h]
    exact if_neg h

private theorem follows_step (h : Follows tr ph) (i : In P) : Follows (tr ++ [(i, ph.out i)]) (ph.step i) := by
  obtain ⟨mem, wr, rd⟩ := ph
  cases wr with
  | idle ready =>
    refine ⟨fun q hq => ?_, by rw [effects_quiet rfl]; exact h.mem⟩
    change (if i.awvalid && ready then WrPhase.await i.awReq else .idle true) = _ at hq
    rw [ledger_concat]
    show ((if i.awvalid && ready then [i.awReq] else []).head?.or _) = _
    split at hq
    · rename_i ha
      rw [if_pos ha]
      cases hq
      rfl
    · cases hq
  | await q =>
    have hlast : (ledger tr).latched = some q := h.latched q rfl
    refine ⟨fun q' hq' => ?_, ?_⟩
    · change (if i.wvalid then WrPhase.resp _ else .await q) = _ at hq'
      rw [ledger_concat]
      show ((if i.awvalid && false then [i.awReq] else []).head?.or _) = _
      rw [Bool.and_false, hlast]
      split at hq'
      · cases hq'
      · cases hq'
        rfl
    · show (if i.wvalid then q.store i.wBeat mem else mem) = _
      rw [effects, ledger_concat, Ledger.step]
      show _ = List.foldl _ _ (List.flatMap effect ((ledger tr).writes ++
        (if i.wvalid && true then [i.wBeat] else []).map fun w => ((ledger tr).latched, w)))
      rw [Bool.and_true, hlast, List.flatMap_append, List.foldl_append, ← effects, ← h.mem]
      cases i.wvalid with
      | true =>
        simp only [if_true, List.map_cons, List.map_nil, List.flatMap_cons, List.flatMap_nil, List.append_nil]
        exact store_eq q i.wBeat mem
      | false => rfl
  | resp b =>
    refine ⟨fun q hq => ?_, by rw [effects_quiet rfl]; exact h.mem⟩
    change (if i.bready then WrPhase.idle false else .resp b) = _ at hq
    split at hq <;> cases hq

private theorem follows_run (is : List (In P)) :
    Follows ((engine P).trace (.initial P) is) ((engine P).run (.initial P) is) := by
  have hstart : Follows [] (.initial P) := ⟨fun _ hq => (by cases hq), rfl⟩
  exact Machine.track (M := engine P) (I := Follows) (fun _ _ i h _ => follows_step h i) hstart (fun _ _ => trivial)

private theorem mem_eq_held (h : Follows tr ph) (k : BitVec 5) : ph.mem k = held tr k := by
  rw [h.mem, foldl_write]
  rfl

end

/-! ### Reads -/

/-- An accepted read holds its R beat until it is accepted. -/
private theorem read_beat {ph : Phase P} {a : In P} {js : List (In P)} (ha : arTaken (a, ph.out a) ≠ [])
    (hjs : ∀ c ∈ (engine P).trace (ph.step a) js, rTaken c = []) :
    ((engine P).run (ph.step a) js).rd = .resp (a.arReq.rBeat ph.mem) := by
  have hfirst : (ph.step a).rd = .resp (a.arReq.rBeat ph.mem) := by
    obtain ⟨mem, wr, rd⟩ := ph
    cases rd with
    | idle ready =>
      change (if a.arvalid && ready then [a.arReq] else []) ≠ [] at ha
      cases hv : a.arvalid && ready with
      | true => exact if_pos hv
      | false => simp [hv] at ha
    | resp r => simp [arTaken, Phase.out, RdPhase.arready] at ha
  refine Machine.run_while (M := engine P) (I := fun ph' => ph'.rd = .resp (a.arReq.rBeat ph.mem))
    (fun ph' i h hc => ?_) hfirst hjs
  obtain ⟨mem', wr', rd'⟩ := ph'
  change rd' = _ at h
  subst h
  change (if i.rready then [a.arReq.rBeat ph.mem] else []) = [] at hc
  cases hi : i.rready with
  | true => simp [hi] at hc
  | false => exact if_neg (by simp [hi])

/-- At every point of a run from reset each register is the fold of the writes to it so far; and a read that is
accepted at this point shows, until its R beat is accepted, what its register is then. -/
theorem linearizable {s₀ : State P} (h0 : IsReset s₀) (is : List (In P)) :
    (∀ k, ((block P).run s₀ is).regfile k = held ((block P).trace s₀ is) k) ∧
    ∀ a js i, arTaken (a, out ((block P).run s₀ is) a) ≠ [] →
      (∀ c ∈ (block P).trace ((block P).run s₀ (is ++ [a])) js, rTaken c = []) →
      (out ((block P).run s₀ (is ++ a :: js)) i).r = some
        (if inRange a.araddr then ⟨a.arid, held ((block P).trace s₀ is) (regIndex a.araddr), respOkay⟩
        else ⟨a.arid, 0, respSlverr⟩) := by
  have hr := rel_run (rel_reset h0) is
  have hf := follows_run (P := P) is
  rw [← trace_eq (rel_reset h0)] at hf
  refine ⟨fun k => by rw [hr.mem, mem_eq_held hf], fun a js i ha hjs => ?_⟩
  rw [Machine.run_concat] at hjs
  rw [out_rel hr] at ha
  have hnext : Rel ((block P).step ((block P).run s₀ is) a) _ := rel_posedge hr a
  rw [trace_eq hnext] at hjs
  have hbeat := read_beat ha hjs
  rw [Machine.run_append, Machine.run_cons, out_rel (rel_run hnext js)]
  show RdPhase.r (((engine P).run (Phase.step _ a) js).rd) = _
  rw [hbeat]
  show some (a.arReq.rBeat _) = _
  rw [Req.rBeat, mem_eq_held hf]
  rfl

/-- A write of two bytes, and a read of the register that meets the next W beat at one edge. -/
theorem linearizable_same_edge :
    let z := In.zero {}
    let aw := z.withAw ⟨5, 0x08⟩
    let is := [z, aw, z.withW ⟨5, 0xaabbccdd, 0b0011⟩, { z with bready := true }, z, aw]
    let a := (z.withW ⟨5, 0x11223344, 0b1111⟩).withAr ⟨6, 0x08⟩
    (out ((block {}).run (State.zero {}) (is ++ a :: [z])) z).r = some
      (if inRange a.araddr then ⟨a.arid, held ((block {}).trace (State.zero {}) is) (regIndex a.araddr), respOkay⟩
      else ⟨a.arid, 0, respSlverr⟩) :=
  (linearizable (isReset_zero _) _).2 _ _ _ (by decide) (by decide)

end AxiApb.RegBlock
