import AxiApb.Observers
import AxiApb.RegBlockSpec

/-!
# The monitor of the register block

`axi3lite_monitor` forks an observer of writes and one of reads, and restarts both when one of them finishes.  A read
that is in progress when a write is answered is therefore lost, and a write that is in progress when a read is
answered; otherwise each answer is reported once, with what was accepted for it (`monitor_reports`).
-/

namespace AxiApb.RegBlock

open Clocked

/-- The parameters of the interface that is monitored. -/
abbrev monitored : Params := { idWidth := 4, addrWidth := 32 }

/-! ### The observers -/

/-- An item of kind `RB_WRITE`. -/
structure WriteItem where
  awid : BitVec 4
  wid : BitVec 4
  addr : BitVec 32
  data : BitVec 32
  strb : BitVec 4
  resp : BitVec 2
deriving DecidableEq

/-- An item of kind `RB_READ`; its `strb` is not assigned. -/
structure ReadItem where
  awid : BitVec 4
  wid : BitVec 4
  addr : BitVec 32
  data : BitVec 32
  resp : BitVec 2
deriving DecidableEq

/-- The loop in which `observe_write` waits, with what it has captured. -/
inductive WriteObs
  | awaitAw
  | awaitW (aw : Req monitored)
  | awaitB (aw : Req monitored) (w : WBeat monitored)
deriving DecidableEq

inductive ReadObs
  | awaitAr
  | awaitR (ar : Req monitored)
deriving DecidableEq

def writeItem (aw : Req monitored) (w : WBeat monitored) (b : BBeat monitored) : WriteItem :=
  ⟨aw.id, w.wid, aw.addr, w.wdata, w.wstrb, b.bresp⟩

def readItem (ar : Req monitored) (r : RBeat monitored) : ReadItem := ⟨ar.id, ar.id, ar.addr, r.rdata, r.rresp⟩

/-- `observe_write`: one sample at a clock edge. -/
def observeWrite : Observer (Cycle monitored) WriteObs WriteItem where
  start := .awaitAw
  next
    | .awaitAw, c => if c.1.awvalid && c.2.awready then .inl (.awaitW c.1.awReq) else .inl .awaitAw
    | .awaitW aw, c => if c.1.wvalid && c.2.wready then .inl (.awaitB aw c.1.wBeat) else .inl (.awaitW aw)
    | .awaitB aw w, c =>
      match c.2.b with
      | some b => if c.1.bready then .inr (writeItem aw w b) else .inl (.awaitB aw w)
      | none => .inl (.awaitB aw w)

/-- `observe_read` -/
def observeRead : Observer (Cycle monitored) ReadObs ReadItem where
  start := .awaitAr
  next
    | .awaitAr, c => if c.1.arvalid && c.2.arready then .inl (.awaitR c.1.arReq) else .inl .awaitAr
    | .awaitR ar, c =>
      match c.2.r with
      | some r => if c.1.rready then .inr (readItem ar r) else .inl (.awaitR ar)
      | none => .inl (.awaitR ar)

/-- `run_phase` from the release of the reset on: the items in the order of `ap.write`.  When both observers finish at
one edge the simulator may resume `run_phase`, which kills the other one, before that one has sampled. -/
def monitor (l : List (Cycle monitored × Observer.Race)) : List (WriteItem ⊕ ReadItem) :=
  observeWrite.together observeRead (.awaitAw, .awaitAr) l

/-! ### What there is to report -/

section
variable {P : Params}

def awReqs (tr : List (Cycle P)) : List (Req P) := tr.flatMap awTaken
def arReqs (tr : List (Cycle P)) : List (Req P) := tr.flatMap arTaken
def rBeats (tr : List (Cycle P)) : List (RBeat P) := tr.flatMap rTaken

theorem awReqs_concat (tr : List (Cycle P)) (c : Cycle P) : awReqs (tr ++ [c]) = awReqs tr ++ awTaken c := by
  simp [awReqs]

theorem arReqs_concat (tr : List (Cycle P)) (c : Cycle P) : arReqs (tr ++ [c]) = arReqs tr ++ arTaken c := by
  simp [arReqs]

theorem rBeats_concat (tr : List (Cycle P)) (c : Cycle P) : rBeats (tr ++ [c]) = rBeats tr ++ rTaken c := by
  simp [rBeats]

/-- A write, or a read, was accepted and is not answered. -/
def WriteOpen (tr : List (Cycle P)) : Prop := (bBeats tr).length < (awReqs tr).length
def ReadOpen (tr : List (Cycle P)) : Prop := (rBeats tr).length < (arReqs tr).length

end

/-- Each accepted B beat with the AW and the W beat of the same number, and each accepted R beat with its AR. -/
def answeredWrites (tr : List (Cycle monitored)) : List WriteItem :=
  (((awReqs tr).zip (wBeats tr)).zip (bBeats tr)).map fun x => writeItem x.1.1 x.1.2 x.2

def answeredReads (tr : List (Cycle monitored)) : List ReadItem :=
  ((arReqs tr).zip (rBeats tr)).map fun x => readItem x.1 x.2

/-- The monitor reports each write and each read once. -/
structure Reported (l : List (Cycle monitored × Observer.Race)) : Prop where
  writes : Observer.firsts (monitor l) = answeredWrites (l.map Prod.fst)
  reads : Observer.seconds (monitor l) = answeredReads (l.map Prod.fst)

/-- A write and a read that are answered at one edge are both sampled, and otherwise no write is answered while a read is
open that is answered later, and no read while a write is. -/
structure Apart (l : List (Cycle monitored × Observer.Race)) : Prop where
  both : ∀ pre c r post, l = pre ++ (c, r) :: post → bTaken c ≠ [] → rTaken c ≠ [] → r = .both
  read_open : ∀ pre c r post, l = pre ++ (c, r) :: post → bTaken c ≠ [] → rTaken c = [] →
    ReadOpen (pre.map Prod.fst ++ [c]) → ∀ d ∈ post, rTaken d.1 = []
  write_open : ∀ pre c r post, l = pre ++ (c, r) :: post → rTaken c ≠ [] → bTaken c = [] →
    WriteOpen (pre.map Prod.fst ++ [c]) → ∀ d ∈ post, bTaken d.1 = []

/-! ### The observers keep up with the register block -/

/-- Where the observer of writes is in each phase of the write side. -/
def WriteObs.Follows (o : WriteObs) : WrPhase monitored → Prop
  | .idle _ => o = .awaitAw
  | .await q => o = .awaitW q
  | .resp _ => ∃ q w, o = .awaitB q w

def ReadObs.Follows (o : ReadObs) : RdPhase monitored → Prop
  | .idle _ => o = .awaitAr
  | .resp _ => ∃ q, o = .awaitR q

/-- What the observer of writes has captured. -/
def WriteObs.aws : WriteObs → List (Req monitored)
  | awaitAw => []
  | awaitW aw => [aw]
  | awaitB aw _ => [aw]

def WriteObs.ws : WriteObs → List (WBeat monitored)
  | awaitB _ w => [w]
  | _ => []

def ReadObs.ars : ReadObs → List (Req monitored)
  | awaitAr => []
  | awaitR ar => [ar]

/-- One edge of the observer of writes, with what is accepted on AW, W and B. -/
inductive WriteEdge : WriteObs → WriteObs ⊕ WriteItem → List (Req monitored) → List (WBeat monitored) →
    List (BBeat monitored) → Prop
  | stay (o) : WriteEdge o (.inl o) [] [] []
  | aw (q) : WriteEdge .awaitAw (.inl (.awaitW q)) [q] [] []
  | w (q v) : WriteEdge (.awaitW q) (.inl (.awaitB q v)) [] [v] []
  | b (q v b) : WriteEdge (.awaitB q v) (.inr (writeItem q v b)) [] [] [b]

inductive ReadEdge : ReadObs → ReadObs ⊕ ReadItem → List (Req monitored) → List (RBeat monitored) → Prop
  | stay (o) : ReadEdge o (.inl o) [] []
  | ar (q) : ReadEdge .awaitAr (.inl (.awaitR q)) [q] []
  | r (q r) : ReadEdge (.awaitR q) (.inr (readItem q r)) [] [r]

section
variable {ph : Phase monitored} {o : WriteObs} {p : ReadObs}

private theorem write_edge (h : o.Follows ph.wr) (i : In monitored) :
    WriteEdge o (observeWrite.next o (i, ph.out i)) (awTaken (i, ph.out i)) (wTaken (i, ph.out i))
        (bTaken (i, ph.out i)) ∧
      (observeWrite.after o (i, ph.out i)).Follows (ph.step i).wr := by
  obtain ⟨mem, wr, rd⟩ := ph
  have hb : bTaken (i, Phase.out ⟨mem, wr, rd⟩ i) = if i.bready then wr.b.toList else [] := rfl
  have hw : wTaken (i, Phase.out ⟨mem, wr, rd⟩ i) = if i.wvalid && wr.wready then [i.wBeat] else [] := rfl
  have haw : awTaken (i, Phase.out ⟨mem, wr, rd⟩ i) = if i.awvalid && wr.awready then [i.awReq] else [] := rfl
  show _ ∧ WriteObs.Follows _ (wr.step i)
  rw [Observer.after, hb, hw, haw]
  cases wr with
  | idle ready =>
    cases h
    have hnext : observeWrite.next .awaitAw (i, Phase.out ⟨mem, .idle ready, rd⟩ i) =
        if i.awvalid && ready then .inl (.awaitW i.awReq) else .inl .awaitAw := rfl
    simp only [hnext, WrPhase.step, WrPhase.awready, WrPhase.wready, WrPhase.b, Bool.and_false, Option.toList_none,
      ite_self]
    by_cases hv : (i.awvalid && ready) = true
    · simp only [hv, if_true]
      exact ⟨.aw _, rfl⟩
    · simp only [hv]
      exact ⟨.stay _, rfl⟩
  | await q =>
    cases h
    have hnext : observeWrite.next (.awaitW q) (i, Phase.out ⟨mem, .await q, rd⟩ i) =
        if i.wvalid && true then .inl (.awaitB q i.wBeat) else .inl (.awaitW q) := rfl
    simp only [hnext, WrPhase.step, WrPhase.awready, WrPhase.wready, WrPhase.b, Bool.and_false, Bool.and_true,
      Option.toList_none, ite_self]
    cases i.wvalid with
    | true => exact ⟨.w _ _, _, _, rfl⟩
    | false => exact ⟨.stay _, rfl⟩
  | resp b =>
    obtain ⟨q, w, rfl⟩ := h
    have hnext : observeWrite.next (.awaitB q w) (i, Phase.out ⟨mem, .resp b, rd⟩ i) =
        if i.bready then .inr (writeItem q w b) else .inl (.awaitB q w) := rfl
    simp only [hnext, WrPhase.step, WrPhase.awready, WrPhase.wready, WrPhase.b, Bool.and_false]
    cases i.bready with
    | true => exact ⟨.b _ _ _, rfl⟩
    | false => exact ⟨.stay _, _, _, rfl⟩

private theorem read_edge (h : p.Follows ph.rd) (i : In monitored) :
    ReadEdge p (observeRead.next p (i, ph.out i)) (arTaken (i, ph.out i)) (rTaken (i, ph.out i)) ∧
      (observeRead.after p (i, ph.out i)).Follows (ph.step i).rd := by
  obtain ⟨mem, wr, rd⟩ := ph
  have hr : rTaken (i, Phase.out ⟨mem, wr, rd⟩ i) = if i.rready then rd.r.toList else [] := rfl
  have har : arTaken (i, Phase.out ⟨mem, wr, rd⟩ i) = if i.arvalid && rd.arready then [i.arReq] else [] := rfl
  show _ ∧ ReadObs.Follows _ (rd.step mem i)
  rw [Observer.after, hr, har]
  cases rd with
  | idle ready =>
    cases h
    have hnext : observeRead.next .awaitAr (i, Phase.out ⟨mem, wr, .idle ready⟩ i) =
        if i.arvalid && ready then .inl (.awaitR i.arReq) else .inl .awaitAr := rfl
    simp only [hnext, RdPhase.step, RdPhase.arready, RdPhase.r, Option.toList_none, ite_self]
    by_cases hv : (i.arvalid && ready) = true
    · simp only [hv, if_true]
      exact ⟨.ar _, _, rfl⟩
    · simp only [hv]
      exact ⟨.stay _, rfl⟩
  | resp r =>
    obtain ⟨q, rfl⟩ := h
    have hnext : observeRead.next (.awaitR q) (i, Phase.out ⟨mem, wr, .resp r⟩ i) =
        if i.rready then .inr (readItem q r) else .inl (.awaitR q) := rfl
    simp only [hnext, RdPhase.step, RdPhase.arready, RdPhase.r, Bool.and_false]
    cases i.rready with
    | true => exact ⟨.r _ _, rfl⟩
    | false => exact ⟨.stay _, _, rfl⟩

end

/-! What an edge means for the observer. -/

section
variable {c : Cycle monitored} {o : WriteObs} {p : ReadObs} {z : WriteObs ⊕ WriteItem} {y : ReadObs ⊕ ReadItem}
  {qs : List (Req monitored)} {ws : List (WBeat monitored)} {bs : List (BBeat monitored)}
  {rs : List (RBeat monitored)}

private theorem WriteEdge.busy (h : WriteEdge o z qs ws bs) (ho : o ≠ .awaitAw) : qs = [] ∧ z ≠ .inl .awaitAw := by
  cases h with
  | stay => exact ⟨rfl, fun hz => ho (Sum.inl.inj hz)⟩
  | aw => exact absurd rfl ho
  | w => exact ⟨rfl, fun hz => by cases hz⟩
  | b => exact ⟨rfl, fun hz => by cases hz⟩

private theorem ReadEdge.busy (h : ReadEdge p y qs rs) (hp : p ≠ .awaitAr) : qs = [] ∧ y ≠ .inl .awaitAr := by
  cases h with
  | stay => exact ⟨rfl, fun hz => hp (Sum.inl.inj hz)⟩
  | ar => exact absurd rfl hp
  | r => exact ⟨rfl, fun hz => by cases hz⟩

private theorem WriteEdge.done (h : WriteEdge o z qs ws bs) : z.getRight?.isSome = true ↔ bs ≠ [] := by
  cases h <;> simp

private theorem ReadEdge.done (h : ReadEdge p y qs rs) : y.getRight?.isSome = true ↔ rs ≠ [] := by
  cases h <;> simp

/-- A restarted observer waits as long as no address is accepted. -/
private theorem write_deaf (h : awTaken c = []) : observeWrite.next .awaitAw c = .inl .awaitAw := by
  have hv : ¬ (c.1.awvalid && c.2.awready) = true := by
    intro hv
    rw [awTaken, if_pos hv] at h
    cases h
  exact if_neg hv

private theorem read_deaf (h : arTaken c = []) : observeRead.next .awaitAr c = .inl .awaitAr := by
  have hv : ¬ (c.1.arvalid && c.2.arready) = true := by
    intro hv
    rw [arTaken, if_pos hv] at h
    cases h
  exact if_neg hv

end

/-! ### Traces -/

section
variable {σ α : Type} {O : Observer (Cycle monitored) σ α} {F : σ → Phase monitored → Prop} {s : σ}
  {ph : Phase monitored}

private theorem orderly_of (hstep : ∀ s ph i, F s ph → F (O.after s (i, ph.out i)) (ph.step i))
    (hbusy : ∀ s ph i, F s ph → s ≠ O.start →
      O.next O.start (i, ph.out i) = .inl O.start ∧ O.next s (i, ph.out i) ≠ .inl O.start)
    (h : F s ph) (is : List (In monitored)) : O.Orderly s ((engine monitored).trace ph is) := by
  induction is generalizing s ph with
  | nil => trivial
  | cons i is ih => exact ⟨hbusy s ph i h, ih (hstep s ph i h)⟩

/-- There is nothing to report just if nothing is answered. -/
private theorem alone_nil_of {β : Type} {answer : Cycle monitored → List β}
    (hstep : ∀ s ph i, F s ph → F (O.after s (i, ph.out i)) (ph.step i))
    (hdone : ∀ s ph i, F s ph → ((O.done s (i, ph.out i)).isSome = true ↔ answer (i, ph.out i) ≠ []))
    (h : F s ph) (is : List (In monitored)) : O.alone s ((engine monitored).trace ph is) = [] ↔
      ∀ c ∈ (engine monitored).trace ph is, answer c = [] := by
  induction is generalizing s ph with
  | nil => simp [Observer.alone]
  | cons i is ih =>
    rw [Machine.trace_cons, Observer.alone_cons, List.append_eq_nil_iff, List.forall_mem_cons]
    refine and_congr ?_ (ih (hstep s ph i h))
    rw [Option.toList_eq_nil_iff, ← Option.not_isSome_iff_eq_none, ← not_iff_not, not_not]
    exact hdone s ph i h

end

/-- The accepted addresses and beats of writes, with the observer: the items `xs` are those of the answered ones. -/
private def WriteHist (qs : List (Req monitored)) (ws : List (WBeat monitored)) (bs : List (BBeat monitored))
    (xs : List WriteItem) (o : WriteObs) : Prop :=
  ∃ qs' ws', qs = qs' ++ o.aws ∧ ws = ws' ++ o.ws ∧ qs'.length = ws'.length ∧ qs'.length = bs.length ∧
    xs = ((qs'.zip ws').zip bs).map fun x => writeItem x.1.1 x.1.2 x.2

private def ReadHist (qs : List (Req monitored)) (rs : List (RBeat monitored)) (xs : List ReadItem) (p : ReadObs) :
    Prop :=
  ∃ qs', qs = qs' ++ p.ars ∧ qs'.length = rs.length ∧ xs = (qs'.zip rs).map fun x => readItem x.1 x.2

section
variable {o : WriteObs} {p : ReadObs} {z : WriteObs ⊕ WriteItem} {y : ReadObs ⊕ ReadItem}
  {qs aws : List (Req monitored)} {ws vs : List (WBeat monitored)} {bs cs : List (BBeat monitored)}
  {rs ds : List (RBeat monitored)} {xs : List WriteItem} {us : List ReadItem}

private theorem WriteHist.step (h : WriteHist qs ws bs xs o) (he : WriteEdge o z aws vs cs) :
    WriteHist (qs ++ aws) (ws ++ vs) (bs ++ cs) (xs ++ z.getRight?.toList) (z.elim id fun _ => .awaitAw) := by
  obtain ⟨qs', ws', rfl, rfl, hw, hb, rfl⟩ := h
  cases he with
  | stay => exact ⟨qs', ws', by simp, by simp, hw, by simpa using hb, by simp⟩
  | aw q => exact ⟨qs', ws', by simp [WriteObs.aws], by simp [WriteObs.ws], hw, by simpa using hb, by simp⟩
  | w q v => exact ⟨qs', ws', by simp [WriteObs.aws], by simp [WriteObs.ws], hw, by simpa using hb, by simp⟩
  | b q v b =>
    have hzip : (qs'.zip ws').length = bs.length := by rw [List.length_zip, ← hw, Nat.min_self, hb]
    refine ⟨qs' ++ [q], ws' ++ [v], by simp [WriteObs.aws], by simp [WriteObs.ws], by simp [hw], by simp [hb], ?_⟩
    rw [List.zip_append hw, List.zip_append hzip, List.map_append]
    rfl

private theorem ReadHist.step (h : ReadHist qs rs us p) (he : ReadEdge p y aws ds) :
    ReadHist (qs ++ aws) (rs ++ ds) (us ++ y.getRight?.toList) (y.elim id fun _ => .awaitAr) := by
  obtain ⟨qs', rfl, hr, rfl⟩ := h
  cases he with
  | stay => exact ⟨qs', by simp, by simpa using hr, by simp⟩
  | ar q => exact ⟨qs', by simp [ReadObs.ars], by simpa using hr, by simp⟩
  | r q r =>
    refine ⟨qs' ++ [q], by simp [ReadObs.ars], by simp [hr], ?_⟩
    rw [List.zip_append hr, List.map_append]
    rfl

/-- The open write has no B beat to go with. -/
private theorem WriteHist.items (h : WriteHist qs ws bs xs o) :
    xs = ((qs.zip ws).zip bs).map fun x => writeItem x.1.1 x.1.2 x.2 := by
  obtain ⟨qs', ws', rfl, rfl, hw, hb, rfl⟩ := h
  have hzip : (qs'.zip ws').length = bs.length := by rw [List.length_zip, ← hw, Nat.min_self, hb]
  have hcut : ((qs' ++ o.aws).zip (ws' ++ o.ws)).zip bs = (qs'.zip ws').zip bs := by
    have happ : (qs'.zip ws' ++ o.aws.zip o.ws).zip (bs ++ []) = (qs'.zip ws').zip bs ++ (o.aws.zip o.ws).zip [] :=
      List.zip_append hzip
    rw [List.append_nil, List.zip_nil_right, List.append_nil] at happ
    rw [List.zip_append hw, happ]
  rw [hcut]

private theorem ReadHist.items (h : ReadHist qs rs us p) : us = (qs.zip rs).map fun x => readItem x.1 x.2 := by
  obtain ⟨qs', rfl, hr, rfl⟩ := h
  have hcut : (qs' ++ p.ars).zip rs = qs'.zip rs := by
    have happ : (qs' ++ p.ars).zip (rs ++ []) = qs'.zip rs ++ p.ars.zip [] := List.zip_append hr
    rw [List.append_nil, List.zip_nil_right, List.append_nil] at happ
    exact happ
  rw [hcut]

private theorem WriteHist.open_iff (h : WriteHist qs ws bs xs o) : bs.length < qs.length ↔ o ≠ .awaitAw := by
  obtain ⟨qs', ws', rfl, -, -, hb, -⟩ := h
  rw [List.length_append, hb]
  cases o <;> simp [WriteObs.aws]

private theorem ReadHist.open_iff (h : ReadHist qs rs us p) : rs.length < qs.length ↔ p ≠ .awaitAr := by
  obtain ⟨qs', rfl, hr, -⟩ := h
  rw [List.length_append, hr]
  cases p <;> simp [ReadObs.ars]

end

/-- The phase of the register block after a trace, with the two observers that are left alone. -/
private structure Watched (tr : List (Cycle monitored)) (ph : Phase monitored) : Prop where
  write : (observeWrite.run .awaitAw tr).Follows ph.wr
  read : (observeRead.run .awaitAr tr).Follows ph.rd
  writes : WriteHist (awReqs tr) (wBeats tr) (bBeats tr) (observeWrite.alone .awaitAw tr) (observeWrite.run .awaitAw tr)
  reads : ReadHist (arReqs tr) (rBeats tr) (observeRead.alone .awaitAr tr) (observeRead.run .awaitAr tr)

section
variable {tr : List (Cycle monitored)} {ph : Phase monitored}

private theorem Watched.step (h : Watched tr ph) (i : In monitored) :
    Watched (tr ++ [(i, ph.out i)]) (ph.step i) := by
  obtain ⟨hw, hwn⟩ := write_edge h.write i
  obtain ⟨hr, hrn⟩ := read_edge h.read i
  have hrunw : observeWrite.run .awaitAw (tr ++ [(i, ph.out i)]) =
      observeWrite.after (observeWrite.run .awaitAw tr) (i, ph.out i) := List.foldl_concat ..
  have hrunr : observeRead.run .awaitAr (tr ++ [(i, ph.out i)]) =
      observeRead.after (observeRead.run .awaitAr tr) (i, ph.out i) := List.foldl_concat ..
  refine ⟨by rw [hrunw]; exact hwn, by rw [hrunr]; exact hrn, ?_, ?_⟩
  · rw [awReqs_concat, wBeats_concat, bBeats_concat, hrunw, Observer.alone_append, Observer.alone_cons, Observer.alone,
      List.append_nil]
    exact h.writes.step hw
  · rw [arReqs_concat, rBeats_concat, hrunr, Observer.alone_append, Observer.alone_cons, Observer.alone,
      List.append_nil]
    exact h.reads.step hr

private theorem watched_run (is : List (In monitored)) :
    Watched ((engine monitored).trace (.initial _) is) ((engine monitored).run (.initial _) is) := by
  have hinit : Watched [] (.initial monitored) :=
    ⟨rfl, rfl, ⟨[], [], rfl, rfl, rfl, rfl, rfl⟩, ⟨[], rfl, rfl, rfl⟩⟩
  exact Machine.track (M := engine monitored) (I := Watched) (fun _ _ i h _ => h.step i) hinit (fun _ _ => trivial)

end

/-! ### What is reported -/

section
variable {is js ks : List (In monitored)} {i : In monitored} {r : Observer.Race}

private theorem orderly_run (is : List (In monitored)) :
    observeWrite.Orderly .awaitAw ((engine monitored).trace (.initial _) is) ∧
      observeRead.Orderly .awaitAr ((engine monitored).trace (.initial _) is) := by
  constructor
  · refine orderly_of (F := fun o ph => o.Follows ph.wr) (fun _ _ i h => (write_edge h i).2) (fun o ph i h ho => ?_) rfl is
    obtain ⟨hquiet, hopen⟩ := (write_edge h i).1.busy ho
    exact ⟨write_deaf hquiet, hopen⟩
  · refine orderly_of (F := fun p ph => p.Follows ph.rd) (fun _ _ i h => (read_edge h i).2) (fun p ph i h hp => ?_) rfl is
    obtain ⟨hquiet, hopen⟩ := (read_edge h i).1.busy hp
    exact ⟨read_deaf hquiet, hopen⟩

/-- The condition of the library in terms of handshakes. -/
private theorem clear_iff {pre post : List (Cycle monitored)} {ph : Phase monitored} (h : Watched pre ph)
    (hpost : post = (engine monitored).trace (ph.step i) ks) :
    observeWrite.Clear observeRead (observeWrite.done (observeWrite.run .awaitAw pre) (i, ph.out i))
        (observeRead.done (observeRead.run .awaitAr pre) (i, ph.out i))
        (observeWrite.after (observeWrite.run .awaitAw pre) (i, ph.out i))
        (observeRead.after (observeRead.run .awaitAr pre) (i, ph.out i)) r post ↔
      (bTaken (i, ph.out i) ≠ [] → rTaken (i, ph.out i) ≠ [] → r = .both) ∧
        (bTaken (i, ph.out i) ≠ [] → rTaken (i, ph.out i) = [] → ReadOpen (pre ++ [(i, ph.out i)]) →
          ∀ c ∈ post, rTaken c = []) ∧
        (rTaken (i, ph.out i) ≠ [] → bTaken (i, ph.out i) = [] → WriteOpen (pre ++ [(i, ph.out i)]) →
          ∀ c ∈ post, bTaken c = []) := by
  have hw := (write_edge h.write i).1.done
  have hr := (read_edge h.read i).1.done
  have hw' : observeWrite.done (observeWrite.run .awaitAw pre) (i, ph.out i) = none ↔ bTaken (i, ph.out i) = [] := by
    rw [← Option.not_isSome_iff_eq_none, ← not_iff_not, not_not]
    exact hw
  have hr' : observeRead.done (observeRead.run .awaitAr pre) (i, ph.out i) = none ↔ rTaken (i, ph.out i) = [] := by
    rw [← Option.not_isSome_iff_eq_none, ← not_iff_not, not_not]
    exact hr
  have hnext := h.step i
  have hwopen : WriteOpen (pre ++ [(i, ph.out i)]) ↔
      observeWrite.after (observeWrite.run .awaitAw pre) (i, ph.out i) ≠ .awaitAw := by
    have := hnext.writes.open_iff
    rwa [show observeWrite.run .awaitAw (pre ++ [(i, ph.out i)]) =
      observeWrite.after (observeWrite.run .awaitAw pre) (i, ph.out i) from List.foldl_concat ..] at this
  have hropen : ReadOpen (pre ++ [(i, ph.out i)]) ↔
      observeRead.after (observeRead.run .awaitAr pre) (i, ph.out i) ≠ .awaitAr := by
    have := hnext.reads.open_iff
    rwa [show observeRead.run .awaitAr (pre ++ [(i, ph.out i)]) =
      observeRead.after (observeRead.run .awaitAr pre) (i, ph.out i) from List.foldl_concat ..] at this
  have hwrest : observeWrite.alone (observeWrite.after (observeWrite.run .awaitAw pre) (i, ph.out i)) post = [] ↔
      ∀ c ∈ post, bTaken c = [] := by
    rw [hpost]
    exact alone_nil_of (F := fun o ph => o.Follows ph.wr) (fun _ _ i h => (write_edge h i).2)
      (fun _ _ i h => (write_edge h i).1.done) (write_edge h.write i).2 ks
  have hrrest : observeRead.alone (observeRead.after (observeRead.run .awaitAr pre) (i, ph.out i)) post = [] ↔
      ∀ c ∈ post, rTaken c = [] := by
    rw [hpost]
    exact alone_nil_of (F := fun p ph => p.Follows ph.rd) (fun _ _ i h => (read_edge h i).2)
      (fun _ _ i h => (read_edge h i).1.done) (read_edge h.read i).2 ks
  rw [Observer.Clear, hwopen, hropen, ← hwrest, ← hrrest, ← hw', ← hr']
  exact and_congr (imp_congr hw (imp_congr hr Iff.rfl))
    (and_congr (imp_congr hw Iff.rfl) (imp_congr hr Iff.rfl))

end

/-- Whatever the simulator does with answers at one edge: the monitor reports each answered write and read once if and
only if no answer falls into a transaction of the other kind that is answered later. -/
theorem monitor_reports {s₀ : State monitored} {is : List (In monitored)} {l : List (Cycle monitored × Observer.Race)}
    (h0 : IsReset s₀) (hl : l.map Prod.fst = (block monitored).trace s₀ is) : Reported l ↔ Apart l := by
  rw [trace_eq (rel_reset h0)] at hl
  have ho := orderly_run is
  have hwatch := watched_run is
  rw [← hl] at ho hwatch
  have hlossless : Reported l ↔ observeWrite.Undisturbed observeRead .awaitAw .awaitAr l := by
    refine Iff.trans ?_ (Observer.together_complete_iff ho.1 ho.2)
    show _ ↔ _ = observeWrite.alone .awaitAw _ ∧ _ = observeRead.alone .awaitAr _
    rw [hwatch.writes.items, hwatch.reads.items]
    exact ⟨fun h => ⟨h.writes, h.reads⟩, fun h => ⟨h.1, h.2⟩⟩
  have hedge : ∀ pre c r post, l = pre ++ (c, r) :: post →
      (observeWrite.Clear observeRead (observeWrite.done (observeWrite.run .awaitAw (pre.map Prod.fst)) c)
          (observeRead.done (observeRead.run .awaitAr (pre.map Prod.fst)) c)
          (observeWrite.after (observeWrite.run .awaitAw (pre.map Prod.fst)) c)
          (observeRead.after (observeRead.run .awaitAr (pre.map Prod.fst)) c) r (post.map Prod.fst) ↔
        (bTaken c ≠ [] → rTaken c ≠ [] → r = .both) ∧
          (bTaken c ≠ [] → rTaken c = [] → ReadOpen (pre.map Prod.fst ++ [c]) → ∀ d ∈ post, rTaken d.1 = []) ∧
          (rTaken c ≠ [] → bTaken c = [] → WriteOpen (pre.map Prod.fst ++ [c]) → ∀ d ∈ post, bTaken d.1 = [])) := by
    intro pre c r post hsplit
    have htr : (engine monitored).trace (.initial _) is = pre.map Prod.fst ++ c :: post.map Prod.fst := by
      rw [← hl, hsplit, List.map_append]
      rfl
    obtain ⟨js, i, ks, -, hpre, rfl, hpost⟩ := Machine.trace_split _ htr
    have hw := watched_run js
    rw [hpre] at hw
    have hiff := clear_iff (i := i) (r := r) hw hpost.symm
    rw [List.forall_mem_map, List.forall_mem_map] at hiff
    exact hiff
  rw [hlossless, Observer.undisturbed_iff]
  constructor
  · intro h
    exact ⟨fun pre c r post hs => ((hedge pre c r post hs).1 (h pre c r post hs)).1,
      fun pre c r post hs => ((hedge pre c r post hs).1 (h pre c r post hs)).2.1,
      fun pre c r post hs => ((hedge pre c r post hs).1 (h pre c r post hs)).2.2⟩
  · intro h pre c r post hs
    exact (hedge pre c r post hs).2 ⟨h.both pre c r post hs, h.read_open pre c r post hs, h.write_open pre c r post hs⟩

/-- A write, and a read that starts after its answer. -/
theorem monitor_reports_apart :
    let r : In monitored := { In.zero monitored with bready := true, rready := true }
    let is := [r, r.withAw ⟨5, 0x10⟩, r.withW ⟨5, 0xabcd, 0xf⟩, r, r.withAr ⟨6, 0x10⟩, r]
    let l := ((block monitored).trace (.zero _) is).map fun c => (c, Observer.Race.first)
    Observer.firsts (monitor l) = [⟨5, 5, 0x10, 0xabcd, 0xf, 0⟩] ∧
      Observer.seconds (monitor l) = [⟨6, 6, 0x10, 0xabcd, 0⟩] ∧ Apart l := by
  intro r is l
  have hw : Observer.firsts (monitor l) = answeredWrites (l.map Prod.fst) := by decide
  have hr : Observer.seconds (monitor l) = answeredReads (l.map Prod.fst) := by decide
  have hl : l.map Prod.fst = (block monitored).trace (.zero _) is := by simp [l, Function.comp_def]
  exact ⟨by decide, by decide,
    (monitor_reports (isReset_zero _) hl).1 ⟨hw, hr⟩⟩

/-- A read that is answered while a write waits for its W beat: the write is not reported. -/
theorem monitor_misses_write :
    ¬ ∀ (is : List (In monitored)) (l : List (Cycle monitored × Observer.Race)),
      l.map Prod.fst = (block monitored).trace (.zero _) is → Reported l := by
  intro h
  let r : In monitored := { In.zero monitored with bready := true, rready := true }
  let is := [r, (r.withAw ⟨5, 0x10⟩).withAr ⟨6, 0x10⟩, r, r.withW ⟨5, 0xabcd, 0xf⟩, r]
  let l := ((block monitored).trace (.zero _) is).map fun c => (c, Observer.Race.both)
  have hw := (h is l (by simp [l, Function.comp_def])).writes
  revert hw
  decide

end AxiApb.RegBlock
