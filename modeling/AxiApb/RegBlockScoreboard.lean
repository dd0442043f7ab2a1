import AxiApb.RegBlockBench

/-!
# The scoreboard of the register block

`regblock_scoreboard` keeps a shadow of the registers from what the monitor reports, and compares each read with it.
The shadow is not cleared: a byte that no write has touched holds what the simulator put there, while the register holds
0.  A read is therefore a mismatch just if its register was written, but not all of its bytes, and one of those left out
is not 0 in the shadow (`scoreboard_counts`).
-/

namespace AxiApb.RegBlock

open Clocked ByteStore

/-- `v[8*b +: 8]` -/
def byteOf (v : BitVec 32) (b : Fin 4) : BitVec 8 := v.extractLsb' (8 * b) 8

/-- The bytes of the shadow; `none` is a byte that is X. -/
abbrev ShadowBytes := BitVec 5 → Fin 4 → Option (BitVec 8)

/-- `regblock_scoreboard` -/
structure Scoreboard where
  shadow : ShadowBytes
  shadowValid : BitVec 5 → Bool
  errors : BitVec 32

namespace Scoreboard

/-- After `build_phase`, with the shadow as the simulator leaves it. -/
def init (x : ShadowBytes) : Scoreboard := ⟨x, fun _ => false, 0⟩

/-- The item is in range, and a write has the same `WID` as `AWID`. -/
def tracked : WriteItem ⊕ ReadItem → Bool
  | .inl item => inRange (P := monitored) item.addr && item.awid == item.wid
  | .inr item => inRange (P := monitored) item.addr

def write (s : Scoreboard) (item : WriteItem ⊕ ReadItem) : Scoreboard :=
  if !tracked item then s
  else
    match item with
    | .inl item =>
      let idx := regIndex (P := monitored) item.addr
      if item.resp = 0b00#2 then
        { s with
          shadow := Function.update s.shadow idx fun b =>
            if item.strb.getLsbD b then some (byteOf item.data b) else s.shadow idx b
          shadowValid := Function.update s.shadowValid idx true }
      else s
    | .inr item =>
      let idx := regIndex (P := monitored) item.addr
      if item.resp = 0b00#2 then
        if s.shadowValid idx then
          -- `!==`: a byte that is X differs from every byte
          if ∃ b, s.shadow idx b ≠ some (byteOf item.data b) then { s with errors := s.errors + 1#32 } else s
        else s
      else s

end Scoreboard

/-! ### Reads of registers that are written in part -/

namespace SeqItem

/-- The item is a write that is stored in register `k`. -/
def Stores (item : SeqItem) (k : BitVec 5) : Prop :=
  item.kind = .write ∧ item.req.Accepts item.beat ∧ regIndex (P := monitored) item.addr = k

instance (item : SeqItem) (k : BitVec 5) : Decidable (item.Stores k) := inferInstanceAs (Decidable (_ ∧ _ ∧ _))

end SeqItem

/-- Byte `b` of register `k` is written by one of the items. -/
def Touched (its : List SeqItem) (k : BitVec 5) (b : Fin 4) : Prop := ∃ item ∈ its, item.Stores k ∧ item.strb.getLsbD b = true

instance (its : List SeqItem) (k : BitVec 5) (b : Fin 4) : Decidable (Touched its k b) :=
  inferInstanceAs (Decidable (∃ item ∈ its, _ ∧ _))

/-- After the items `its` the item `item` is a read of a register that one of them is stored in, and of whose bytes one
is not written by any of them and is not 0 in the shadow `x`. -/
def FalseAlarm (x : ShadowBytes) (its : List SeqItem) (item : SeqItem) : Prop :=
  item.kind = .read ∧ inRange (P := monitored) item.addr = true ∧
    (∃ w ∈ its, w.Stores (regIndex (P := monitored) item.addr)) ∧
    ∃ b, ¬ Touched its (regIndex (P := monitored) item.addr) b ∧ x (regIndex (P := monitored) item.addr) b ≠ some 0

instance (x : ShadowBytes) (its : List SeqItem) (item : SeqItem) : Decidable (FalseAlarm x its item) :=
  inferInstanceAs (Decidable (_ ∧ _ ∧ _ ∧ _))

/-- The number of such reads among the items. -/
def falseAlarms (x : ShadowBytes) (its : List SeqItem) : Nat :=
  (List.range its.length).countP fun n => its[n]?.any fun item => decide (FalseAlarm x (its.take n) item)

theorem falseAlarms_concat (x : ShadowBytes) (its : List SeqItem) (item : SeqItem) :
    falseAlarms x (its ++ [item]) = falseAlarms x its + if FalseAlarm x its item then 1 else 0 := by
  have hold : ∀ n ∈ List.range its.length,
      ((its ++ [item])[n]?.any fun it => decide (FalseAlarm x ((its ++ [item]).take n) it)) =
        (its[n]?.any fun it => decide (FalseAlarm x (its.take n) it)) := by
    intro n hn
    have hlt : n < its.length := List.mem_range.1 hn
    rw [List.getElem?_append_left hlt, List.take_append_of_le_length (Nat.le_of_lt hlt)]
  rw [falseAlarms, List.length_append, List.length_singleton, List.range_succ, List.countP_append,
    List.countP_congr fun n hn => by rw [hold n hn], List.countP_singleton]
  simp [falseAlarms]

/-! ### The shadow follows the registers -/

theorem byteOf_mergeBytes (old new : BitVec 32) (strb : BitVec 4) (b : Fin 4) :
    byteOf (mergeBytes old new strb) b = if strb.getLsbD b then byteOf new b else byteOf old b := by
  have hbit : ∀ j < 8, (8 * b.val + j) / 8 = b.val := fun j hj => by omega
  apply BitVec.eq_of_getLsbD_eq
  intro j hj
  rw [byteOf, BitVec.getLsbD_extractLsb', getLsbD_mergeBytes, hbit j hj]
  split
  · rw [byteOf, BitVec.getLsbD_extractLsb']
  · rw [byteOf, BitVec.getLsbD_extractLsb']

/-- What the scoreboard holds after the items `its`, which have left the registers `m`. -/
structure Shadows (x : ShadowBytes) (its : List SeqItem) (m : RegFile) (s : Scoreboard) : Prop where
  shadow : ∀ k b, s.shadow k b = if Touched its k b then some (byteOf (m k) b) else x k b
  zero : ∀ k b, ¬ Touched its k b → byteOf (m k) b = 0
  valid : ∀ k, s.shadowValid k = true ↔ ∃ w ∈ its, w.Stores k
  errors : s.errors = BitVec.ofNat 32 (falseAlarms x its)

section
variable {x : ShadowBytes} {its : List SeqItem} {m : RegFile} {s : Scoreboard} {item : SeqItem}

private theorem touched_concat (k : BitVec 5) (b : Fin 4) :
    Touched (its ++ [item]) k b ↔ Touched its k b ∨ item.Stores k ∧ item.strb.getLsbD b = true := by
  unfold Touched
  simp only [List.mem_append, List.mem_singleton, or_and_right, exists_or, exists_eq_left]

private theorem stored_concat (k : BitVec 5) :
    (∃ w ∈ its ++ [item], w.Stores k) ↔ (∃ w ∈ its, w.Stores k) ∨ item.Stores k := by
  simp only [List.mem_append, List.mem_singleton, or_and_right, exists_or, exists_eq_left]

/-- An item that is not stored and is no mismatch changes nothing. -/
private theorem Shadows.skip (h : Shadows x its m s) (hst : ∀ k, ¬ item.Stores k) (hal : ¬ FalseAlarm x its item) :
    Shadows x (its ++ [item]) m s where
  shadow k b := by
    rw [h.shadow]
    simp only [touched_concat, hst k, false_and, or_false]
  zero k b hb := h.zero k b fun ht => hb ((touched_concat k b).2 (Or.inl ht))
  valid k := by rw [h.valid, stored_concat, or_iff_left (hst k)]
  errors := by rw [h.errors, falseAlarms_concat, if_neg hal, Nat.add_zero]

/-- A write that is stored. -/
private theorem Shadows.store (h : Shadows x its m s) (hk : item.kind = .write) (hacc : item.req.Accepts item.beat) :
    Shadows x (its ++ [item]) (item.store m) (s.write (item.answered m).report) := by
  have hst : ∀ k, item.Stores k ↔ k = regIndex (P := monitored) item.addr := by
    intro k
    constructor
    · exact fun hs => hs.2.2.symm
    · exact fun he => ⟨hk, hacc, he.symm⟩
  have hrep : (item.answered m).report =
      .inl ⟨item.awid, item.wid, item.addr, item.data, item.strb, respOkay⟩ := by
    simp [SeqItem.answered, hk, SeqItem.report, Req.bBeat, hacc]
  have hwid : item.wid = item.awid := hacc.2
  have htr : Scoreboard.tracked (.inl ⟨item.awid, item.wid, item.addr, item.data, item.strb, respOkay⟩) = true := by
    simp only [Scoreboard.tracked, hwid, beq_self_eq_true, Bool.and_true]
    exact hacc.1
  have hm : item.store m = Function.update m (regIndex (P := monitored) item.addr)
      (mergeBytes (m (regIndex (P := monitored) item.addr)) item.data item.strb) := by
    rw [SeqItem.store, hk, Req.store, if_pos hacc]
    rfl
  have hal : ¬ FalseAlarm x its item := by
    intro hf
    rw [hf.1] at hk
    cases hk
  have hs : s.write (.inl ⟨item.awid, item.wid, item.addr, item.data, item.strb, respOkay⟩) =
      { s with
        shadow := Function.update s.shadow (regIndex (P := monitored) item.addr) fun b =>
          if item.strb.getLsbD b then some (byteOf item.data b) else s.shadow (regIndex (P := monitored) item.addr) b
        shadowValid := Function.update s.shadowValid (regIndex (P := monitored) item.addr) true } := by
    rw [Scoreboard.write, htr]
    rfl
  rw [hrep, hs, hm]
  refine ⟨fun k b => ?_, fun k b hb => ?_, fun k => ?_, ?_⟩
  · simp only [touched_concat, hst]
    by_cases he : k = regIndex (P := monitored) item.addr
    · subst he
      rw [Function.update_self, Function.update_self, byteOf_mergeBytes, h.shadow]
      cases item.strb.getLsbD b.val <;> simp
    · rw [Function.update_of_ne he, Function.update_of_ne he, h.shadow]
      simp only [he, false_and, or_false]
  · rw [touched_concat, hst, not_or, not_and] at hb
    by_cases he : k = regIndex (P := monitored) item.addr
    · subst he
      rw [Function.update_self, byteOf_mergeBytes, if_neg (hb.2 rfl)]
      exact h.zero _ _ hb.1
    · rw [Function.update_of_ne he]
      exact h.zero _ _ hb.1
  · rw [stored_concat, hst, ← h.valid]
    by_cases he : k = regIndex (P := monitored) item.addr
    · subst he
      simp
    · simp [he]
  · rw [falseAlarms_concat, if_neg hal, Nat.add_zero]
    exact h.errors

/-- A read in range. -/
private theorem Shadows.read (h : Shadows x its m s) (hk : item.kind = .read)
    (hin : inRange (P := monitored) item.addr = true) :
    Shadows x (its ++ [item]) m (s.write (item.answered m).report) := by
  have hst : ∀ k, ¬ item.Stores k := by
    intro k hs
    rw [hs.1] at hk
    cases hk
  have hrep : (item.answered m).report =
      .inr ⟨item.awid, item.awid, item.addr, m (regIndex (P := monitored) item.addr), respOkay⟩ := by
    have hin' : inRange item.req.addr = true := hin
    simp [SeqItem.answered, hk, SeqItem.report, Req.rBeat, hin']
    rfl
  have htr : Scoreboard.tracked
      (.inr ⟨item.awid, item.awid, item.addr, m (regIndex (P := monitored) item.addr), respOkay⟩) = true := hin
  -- the shadow differs from the register in bytes that no write has touched
  have hmis : (∃ b, s.shadow (regIndex (P := monitored) item.addr) b ≠
        some (byteOf (m (regIndex (P := monitored) item.addr)) b)) ↔
      ∃ b, ¬ Touched its (regIndex (P := monitored) item.addr) b ∧ x (regIndex (P := monitored) item.addr) b ≠ some 0 := by
    refine exists_congr fun b => ?_
    rw [h.shadow]
    by_cases ht : Touched its (regIndex (P := monitored) item.addr) b
    · simp [ht]
    · simp [ht, h.zero _ _ ht]
  have hal : FalseAlarm x its item ↔ s.shadowValid (regIndex (P := monitored) item.addr) = true ∧
      ∃ b, s.shadow (regIndex (P := monitored) item.addr) b ≠
        some (byteOf (m (regIndex (P := monitored) item.addr)) b) := by
    rw [FalseAlarm, h.valid, hmis]
    exact ⟨fun hf => hf.2.2, fun hf => ⟨hk, hin, hf⟩⟩
  rw [hrep, Scoreboard.write, htr]
  by_cases hf : FalseAlarm x its item
  · have hsame : Shadows x (its ++ [item]) m { s with errors := s.errors + 1#32 } := by
      refine ⟨fun k b => ?_, fun k b hb => h.zero k b fun ht => hb ((touched_concat k b).2 (Or.inl ht)), fun k => ?_, ?_⟩
      · simp only [h.shadow, touched_concat, hst k, false_and, or_false]
      · rw [stored_concat, or_iff_left (hst k)]
        exact h.valid k
      · rw [falseAlarms_concat, if_pos hf, BitVec.ofNat_add, ← h.errors]
    simp only [respOkay, Bool.not_true, Bool.false_eq_true, if_false, if_true, (hal.1 hf).1, (hal.1 hf).2]
    exact hsame
  · have hquiet := h.skip hst hf
    rw [hal, not_and] at hf
    by_cases hv : s.shadowValid (regIndex (P := monitored) item.addr) = true
    · simp only [respOkay, Bool.not_true, Bool.false_eq_true, if_false, if_true, hv, hf hv]
      exact hquiet
    · simp only [respOkay, Bool.not_true, Bool.false_eq_true, if_false, if_true, hv]
      exact hquiet

private theorem shadows_step (h : Shadows x its m s) (item : SeqItem) :
    Shadows x (its ++ [item]) (item.store m) (s.write (item.answered m).report) := by
  rcases hk : item.kind with _ | _
  · have hst : ∀ k, ¬ item.Stores k := by
      intro k hs
      rw [hs.1] at hk
      cases hk
    have hm : item.store m = m := by rw [SeqItem.store, hk]
    rw [hm]
    by_cases hin : inRange (P := monitored) item.addr = true
    · exact h.read hk hin
    · have hrep : s.write (item.answered m).report = s := by
        rw [SeqItem.report, SeqItem.answered, hk]
        simp [Scoreboard.write, Scoreboard.tracked, hin]
      rw [hrep]
      exact h.skip hst fun hf => hin hf.2.1
  · by_cases hacc : item.req.Accepts item.beat
    · exact h.store hk hacc
    · have hst : ∀ k, ¬ item.Stores k := fun k hs => hacc hs.2.1
      have hm : item.store m = m := by rw [SeqItem.store, hk, Req.store, if_neg hacc]
      -- the scoreboard drops what the register block answers with `SLVERR`
      have htr : (inRange (P := monitored) item.addr && item.awid == item.wid) = false := by
        by_contra hne
        rw [Bool.not_eq_false, Bool.and_eq_true, beq_iff_eq] at hne
        exact hacc ⟨hne.1, hne.2.symm⟩
      have hrep : s.write (item.answered m).report = s := by
        rw [SeqItem.report, SeqItem.answered, hk]
        simp [Scoreboard.write, Scoreboard.tracked, htr]
      rw [hm, hrep]
      refine h.skip hst fun hf => ?_
      rw [hf.1] at hk
      cases hk

/-- What the scoreboard holds after the reports of items that come back one after the other. -/
theorem shadows_run (pre : List SeqItem) (h : Shadows x pre m s) (its : List SeqItem) :
    Shadows x (pre ++ its) (its.foldl (fun m item => item.store m) m)
      (((serve m its).map SeqItem.report).foldl Scoreboard.write s) := by
  induction its generalizing pre m s with
  | nil =>
    rw [List.append_nil]
    exact h
  | cons item its ih =>
    have hnext := ih (pre ++ [item]) (shadows_step h item)
    rw [List.append_assoc] at hnext
    exact hnext

private theorem shadows_init (x : ShadowBytes) : Shadows x [] (fun _ => 0) (Scoreboard.init x) := by
  refine ⟨fun k b => ?_, fun k b _ => ?_, fun k => ?_, rfl⟩
  · have hnot : ¬ Touched [] k b := by simp [Touched]
    rw [if_neg hnot]
    rfl
  · simp [byteOf]
  · simp [Scoreboard.init]

end

/-- Writes of whole words leave no byte out. -/
private theorem falseAlarms_full {x : ShadowBytes} {its : List SeqItem}
    (h : ∀ item ∈ its, item.kind = .write → item.strb = 0xf#4) : falseAlarms x its = 0 := by
  rw [falseAlarms, List.countP_eq_zero]
  intro n hn
  have hlt : n < its.length := List.mem_range.1 hn
  rw [List.getElem?_eq_getElem hlt, Option.any_some, decide_eq_true_eq]
  rintro ⟨-, -, ⟨w, hw, hst⟩, b, hb, -⟩
  have hall : ∀ b : Fin 4, (0xf#4).getLsbD b = true := by decide
  refine hb ⟨w, hw, hst, ?_⟩
  rw [h w (List.mem_of_mem_take hw) hst.1]
  exact hall b

/-- In every run of the bench the scoreboard counts, in 32 bits, just the reads of registers that were written in part,
while the shadow is not 0 in one of the other bytes; it is silent if all strobes are set, as the constraint of the items
asks. -/
theorem scoreboard_counts {t : Bench} (h : t.Starts) (nexts : List (Option SeqItem)) (x : ShadowBytes)
    {l : List (Cycle monitored × Observer.Race)} (hl : l.map Prod.fst = wires (bench.trace t nexts)) :
    ∃ its, takenItems (bench.trace t nexts) = its ++ (bench.run t nexts).drv.pending.toList ∧
      ((monitor l).foldl Scoreboard.write (Scoreboard.init x)).errors = BitVec.ofNat 32 (falseAlarms x its) ∧
      ((∀ item ∈ its, item.kind = .write → item.strb = 0xf#4) →
        ((monitor l).foldl Scoreboard.write (Scoreboard.init x)).errors = 0) := by
  obtain ⟨hr, hs⟩ := serving_start h
  obtain ⟨its, hb⟩ := benched_run nexts hr hs
  have htaken := hb.taken
  have hmon := hb.monitor
  rw [h.2.1] at htaken hmon
  have herr : ((monitor l).foldl Scoreboard.write (Scoreboard.init x)).errors =
      BitVec.ofNat 32 (falseAlarms x its) := by
    have hrun := shadows_run [] (shadows_init x) its
    rw [show monitor l = _ from hmon l hl, hb.done]
    exact hrun.errors
  refine ⟨its, htaken, herr, fun hfull => ?_⟩
  rw [herr, falseAlarms_full hfull]
  rfl

/-- A write of the lowest byte of register 1, and a read of it, in a simulator with X: one false alarm. -/
theorem scoreboard_counts_partial :
    let one : SeqItem := ⟨.write, 0x04, 0x11223344, 0x1, 1, 1, 0⟩
    let readback : SeqItem := ⟨.read, 0x04, 0, 0, 0, 0, 0⟩
    let t : Bench := ⟨State.zero _, In.zero _, .getNext⟩
    let tr := bench.trace t [some one, none, none, none, some readback, none, none]
    let l := (wires tr).map fun c => (c, Observer.Race.both)
    doneItems tr = [one, { readback with data := 0x44 }] ∧
      ((monitor l).foldl Scoreboard.write (Scoreboard.init fun _ _ => none)).errors = 1 := by
  intro one readback t tr l
  have hl : l.map Prod.fst = wires tr := by simp [l, Function.comp_def]
  obtain ⟨its, htaken, herr, -⟩ :=
    scoreboard_counts (t := t) ⟨isReset_zero _, rfl, rfl, rfl, rfl⟩ _ (fun _ _ => none) hl
  have hidle : (bench.run t [some one, none, none, none, some readback, none, none]).drv.pending = none := by decide
  have hitems : takenItems tr = [one, readback] := by decide
  rw [hidle, Option.toList_none, List.append_nil, show takenItems _ = _ from hitems] at htaken
  refine ⟨by decide, ?_⟩
  rw [herr, ← htaken]
  decide

end AxiApb.RegBlock
