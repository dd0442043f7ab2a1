import AxiApb.RegBlockSpec

/-!
# Writes of the register block

From the handshake of an AW to that of the next one the register block takes one W beat and gives one answer; the
write changes the strobed bytes of its register, or nothing.  A master that offers AW and W beats and takes responses
gets its next AW accepted within four edges (`write_atomic`).
-/

namespace AxiApb.RegBlock

open Clocked

variable {P : Params}

/-! ### One write -/

/-- The phase of the block since the handshake of `q`, with the registers `m` then, and what the trace shows. -/
def WriteTrack (q : Req P) (m : RegFile) (tr : List (Cycle P)) (ph : Phase P) : Prop :=
  match ph.wr with
  | .await q' => q' = q ∧ wBeats tr = [] ∧ bBeats tr = [] ∧ ph.mem = m
  | .resp b => ∃ w, wBeats tr = [w] ∧ bBeats tr = [] ∧ b = q.bBeat w ∧ ph.mem = q.store w m
  | .idle _ => ∃ w, wBeats tr = [w] ∧ bBeats tr = [q.bBeat w] ∧ ph.mem = q.store w m

section
variable {q : Req P} {m : RegFile} {tr : List (Cycle P)} {ph : Phase P} {i : In P}

private theorem wBeats_out (tr : List (Cycle P)) (ph : Phase P) (i : In P) : wBeats (tr ++ [(i, ph.out i)]) =
    wBeats tr ++ if i.wvalid && ph.wr.wready then [i.wBeat] else [] := wBeats_concat _ _

private theorem bBeats_out (tr : List (Cycle P)) (ph : Phase P) (i : In P) : bBeats (tr ++ [(i, ph.out i)]) =
    bBeats tr ++ if i.bready then ph.wr.b.toList else [] := bBeats_concat _ _

/-- One cycle of a write, or after it, in which no new AW is accepted. -/
private theorem writeTrack_step (h : WriteTrack q m tr ph) (hc : awTaken (i, ph.out i) = []) :
    WriteTrack q m (tr ++ [(i, ph.out i)]) (ph.step i) := by
  have hw := wBeats_out tr ph i
  have hb := bBeats_out tr ph i
  obtain ⟨mem, wr, rd⟩ := ph
  cases wr with
  | idle ready =>
    obtain ⟨w, hws, hbs, hm⟩ := h
    have hstay : (WrPhase.idle ready).step i = .idle true := by
      change (if i.awvalid && ready then [i.awReq] else []) = [] at hc
      cases ha : i.awvalid && ready with
      | true => simp [ha] at hc
      | false => exact if_neg (by simp [ha])
    rw [WriteTrack, Phase.step, hstay]
    refine ⟨w, ?_, ?_, hm⟩
    · rw [hw, hws]
      simp [WrPhase.wready]
    · rw [hb, hbs]
      simp [WrPhase.b]
  | await q' =>
    obtain ⟨rfl, hws, hbs, hm⟩ := h
    have hb' : bBeats (tr ++ [(i, Phase.out ⟨mem, .await q', rd⟩ i)]) = [] := by
      rw [hb, hbs]
      simp [WrPhase.b]
    rw [WriteTrack, Phase.step, WrPhase.step]
    cases hv : i.wvalid with
    | true =>
      refine ⟨i.wBeat, ?_, hb', rfl, ?_⟩
      · rw [hw, hws, hv]
        rfl
      · show (if i.wvalid then q'.store i.wBeat mem else mem) = _
        rw [hv, if_pos rfl]
        exact congrArg _ hm
    | false =>
      refine ⟨rfl, ?_, hb', ?_⟩
      · rw [hw, hws, hv]
        rfl
      · show (if i.wvalid then q'.store i.wBeat mem else mem) = _
        rw [hv]
        exact hm
  | resp b =>
    obtain ⟨w, hws, hbs, rfl, hm⟩ := h
    have hw' : wBeats (tr ++ [(i, Phase.out ⟨mem, .resp (q.bBeat w), rd⟩ i)]) = [w] := by
      rw [hw, hws]
      simp [WrPhase.wready]
    rw [WriteTrack, Phase.step, WrPhase.step]
    cases hi : i.bready with
    | true => exact ⟨w, hw', by rw [hb, hbs, hi]; rfl, hm⟩
    | false => exact ⟨w, hw', by rw [hb, hbs, hi]; rfl, rfl, hm⟩

/-- An AW handshake takes the write side out of its idle phase. -/
private theorem idle_of_aw (ha : awTaken (i, ph.out i) ≠ []) :
    ph.wr = .idle true ∧ (ph.step i).wr = .await i.awReq ∧ (ph.step i).mem = ph.mem := by
  obtain ⟨mem, wr, rd⟩ := ph
  cases wr with
  | idle ready =>
    change (if i.awvalid && ready then [i.awReq] else []) ≠ [] at ha
    cases hv : i.awvalid && ready with
    | true =>
      rw [Bool.and_eq_true] at hv
      obtain ⟨hv, rfl⟩ := hv
      exact ⟨rfl, if_pos (by rw [hv]; rfl), rfl⟩
    | false => simp [hv] at ha
  | await | resp => simp [awTaken, Phase.out, WrPhase.awready] at ha

private theorem writeTrack_first (ha : awTaken (i, ph.out i) ≠ []) :
    WriteTrack i.awReq ph.mem [(i, ph.out i)] (ph.step i) := by
  obtain ⟨hidle, hnext, hmem⟩ := idle_of_aw ha
  rw [WriteTrack, hnext]
  refine ⟨rfl, ?_, ?_, hmem⟩
  · simp [wBeats, wTaken, Phase.out, hidle, WrPhase.wready]
  · simp [bBeats, bTaken, Phase.out, hidle, WrPhase.b]

/-- From an AW handshake on, while no new AW is accepted. -/
private theorem write_track {a : In P} {js : List (In P)} (ha : awTaken (a, ph.out a) ≠ [])
    (hjs : ∀ c ∈ (engine P).trace (ph.step a) js, awTaken c = []) :
    WriteTrack a.awReq ph.mem ((engine P).trace ph (a :: js)) ((engine P).run ph (a :: js)) :=
  Machine.track (M := engine P) (I := WriteTrack a.awReq ph.mem) (fun _ _ _ h hc => writeTrack_step h hc)
    (writeTrack_first ha) hjs

end

/-! ### The next write -/

/-- The master offers AW and W beats and takes responses. -/
def Granting (i : In P) : Prop := i.awvalid = true ∧ i.wvalid = true ∧ i.bready = true

/-- The number of edges before the next AW can be accepted. -/
def WrPhase.rank : WrPhase P → Nat
  | idle ready => if ready then 0 else 1
  | resp _ => 2
  | await _ => 3

private theorem rank_step {ph : Phase P} {i : In P} (hi : Granting i) (hc : awTaken (i, ph.out i) = []) :
    (ph.step i).wr.rank + 1 = ph.wr.rank := by
  obtain ⟨hav, hwv, hbr⟩ := hi
  obtain ⟨mem, wr, rd⟩ := ph
  cases wr with
  | idle ready =>
    cases ready with
    | true => simp [awTaken, Phase.out, WrPhase.awready, hav] at hc
    | false => simp [Phase.step, WrPhase.step, WrPhase.rank]
  | await q => simp [Phase.step, WrPhase.step, WrPhase.rank, hwv]
  | resp b => simp [Phase.step, WrPhase.step, WrPhase.rank, hbr]

private theorem aw_within {ph : Phase P} {js : List (In P)} (hjs : ∀ j ∈ js, Granting j)
    (hlen : ph.wr.rank < js.length) : ∃ c ∈ (engine P).trace ph js, awTaken c ≠ [] := by
  induction js generalizing ph with
  | nil => cases hlen
  | cons j js ih =>
    by_cases hc : awTaken (j, ph.out j) = []
    · have hrank := rank_step (hjs j (List.mem_cons_self ..)) hc
      rw [List.length_cons] at hlen
      have hrest : (ph.step j).wr.rank < js.length := by omega
      obtain ⟨c, hmem, hc'⟩ := ih (fun j' hj' => hjs j' (List.mem_cons_of_mem _ hj')) hrest
      exact ⟨c, List.mem_cons_of_mem _ hmem, hc'⟩
    · exact ⟨_, List.mem_cons_self .., hc⟩

private theorem rank_lt (wr : WrPhase P) : wr.rank < 4 := by
  cases wr with
  | idle ready => cases ready <;> simp [WrPhase.rank]
  | await | resp => simp [WrPhase.rank]

/-! ### Every write of a run -/

/-- After the trace `tr` from the handshake of `q`, which found the registers `m`, to the state `t`, without another
AW handshake. -/
structure WriteServed (q : Req P) (m : RegFile) (tr : List (Cycle P)) (t : State P) : Prop where
  one_beat : (wBeats tr).length ≤ 1
  one_answer : (bBeats tr).length ≤ 1
  -- what is offered and what was accepted on B
  answer : ∀ b, (t.bvalid = true ∧ b = ⟨t.bid, t.bresp⟩) ∨ b ∈ bBeats tr → ∃ w, wBeats tr = [w] ∧ b.bid = q.id ∧
    b.bresp = if inRange q.addr = true ∧ w.wid = q.id then respOkay else respSlverr
  untouched : wBeats tr = [] → t.regfile = m
  stored : ∀ w, wBeats tr = [w] →
    if inRange q.addr = true ∧ w.wid = q.id then
      ∀ k j, (t.regfile k).getLsbD j =
        if k = regIndex q.addr ∧ w.wstrb.getLsbD (j / 8) = true then w.wdata.getLsbD j else (m k).getLsbD j
    else t.regfile = m
  next : ∀ a, awTaken (a, out t a) ≠ [] →
    (wBeats (tr ++ [(a, out t a)])).length = 1 ∧ (bBeats (tr ++ [(a, out t a)])).length = 1

section
variable {s : State P} {ph : Phase P} {q : Req P} {m : RegFile} {tr : List (Cycle P)}

/-- The registers after a write, bit by bit. -/
private theorem getLsbD_store (q : Req P) (w : WBeat P) (m : RegFile) :
    if inRange q.addr = true ∧ w.wid = q.id then
      ∀ k j, (q.store w m k).getLsbD j =
        if k = regIndex q.addr ∧ w.wstrb.getLsbD (j / 8) = true then w.wdata.getLsbD j else (m k).getLsbD j
    else q.store w m = m := by
  by_cases h : inRange q.addr = true ∧ w.wid = q.id
  · rw [if_pos h]
    intro k j
    have hstore : q.store w m = storeBytes m (regIndex q.addr) w.wdata w.wstrb := if_pos h
    rw [hstore, storeBytes]
    by_cases hk : k = regIndex q.addr
    · subst hk
      rw [Function.update_self, ByteStore.getLsbD_mergeBytes]
      simp
    · rw [Function.update_of_ne hk, if_neg (fun hand => hk hand.1)]
  · rw [if_neg h]
    exact if_neg h

/-- What B offers is what the phase has. -/
private theorem bvalid_rel (hr : Rel s ph) (hv : s.bvalid = true) : ph.wr = .resp ⟨s.bid, s.bresp⟩ := by
  have hwr := hr.wr
  cases hp : ph.wr with
  | idle ready =>
    rw [hp] at hwr
    rw [hwr.2.2.2] at hv
    cases hv
  | await q =>
    rw [hp] at hwr
    rw [hwr.2.2.2.1] at hv
    cases hv
  | resp b =>
    rw [hp] at hwr
    obtain ⟨-, -, -, -, hid, hresp⟩ := hwr
    rw [hid, hresp]

/-- The W beat is still awaited. -/
private theorem writeServed_await (hr : Rel s ph) {q' : Req P} (hp : ph.wr = .await q') (hws : wBeats tr = [])
    (hbs : bBeats tr = []) (hm : ph.mem = m) : WriteServed q m tr s where
  one_beat := by simp [hws]
  one_answer := by simp [hbs]
  answer b hb := by
    rcases hb with ⟨hv, -⟩ | hb
    · rw [bvalid_rel hr hv] at hp
      cases hp
    · rw [hbs] at hb
      cases hb
  untouched _ := hr.mem.trans hm
  stored w hw := by
    rw [hws] at hw
    cases hw
  next a ha := by
    rw [out_rel hr] at ha
    rw [(idle_of_aw ha).1] at hp
    cases hp

/-- The W beat `w` was accepted. -/
private theorem writeServed_beat (hr : Rel s ph) {w : WBeat P} (hws : wBeats tr = [w])
    (hbs : bBeats tr = [] ∧ ph.wr = .resp (q.bBeat w) ∨ bBeats tr = [q.bBeat w] ∧ ∃ ready, ph.wr = .idle ready)
    (hm : ph.mem = q.store w m) : WriteServed q m tr s where
  one_beat := by simp [hws]
  one_answer := by rcases hbs with ⟨hbs, -⟩ | ⟨hbs, -⟩ <;> simp [hbs]
  answer b hb := by
    have heq : b = q.bBeat w := by
      rcases hb with ⟨hv, rfl⟩ | hb
      · have hp := bvalid_rel hr hv
        rcases hbs with ⟨-, hp'⟩ | ⟨-, ready, hp'⟩
        · exact WrPhase.resp.inj (hp.symm.trans hp')
        · cases hp.symm.trans hp'
      · rcases hbs with ⟨hbs, -⟩ | ⟨hbs, -⟩
        · rw [hbs] at hb
          cases hb
        · rw [hbs] at hb
          exact List.mem_singleton.1 hb
    exact ⟨w, hws, by rw [heq]; rfl, by rw [heq]; rfl⟩
  untouched hnil := by
    rw [hws] at hnil
    cases hnil
  stored w' hw' := by
    obtain rfl : w = w' := List.singleton_inj.1 (hws.symm.trans hw')
    rw [hr.mem, hm]
    exact getLsbD_store q w m
  next a ha := by
    rw [out_rel hr] at ha ⊢
    have hidle := (idle_of_aw ha).1
    rw [wBeats_out, bBeats_out, hidle, hws]
    rcases hbs with ⟨-, hp⟩ | ⟨hbs, -⟩
    · rw [hidle] at hp
      cases hp
    · simp [hbs, WrPhase.wready, WrPhase.b]

private theorem writeServed_of (hr : Rel s ph) (ht : WriteTrack q m tr ph) : WriteServed q m tr s := by
  unfold WriteTrack at ht
  split at ht
  · rename_i q' hp
    obtain ⟨-, hws, hbs, hm⟩ := ht
    exact writeServed_await hr hp hws hbs hm
  · rename_i b hp
    obtain ⟨w, hws, hbs, rfl, hm⟩ := ht
    exact writeServed_beat hr hws (Or.inl ⟨hbs, hp⟩) hm
  · rename_i ready hp
    obtain ⟨w, hws, hbs, hm⟩ := ht
    exact writeServed_beat hr hws (Or.inr ⟨hbs, ready, hp⟩) hm

/-- `AWREADY` and `WREADY` belong to different phases. -/
private theorem ready_exclusive (hr : Rel s ph) : ¬ (s.awready = true ∧ s.wready = true) := by
  rintro ⟨haw, hw⟩
  have hwr := hr.wr
  cases hp : ph.wr with
  | idle ready =>
    rw [hp] at hwr
    rw [hwr.2.2.1] at hw
    cases hw
  | await q =>
    rw [hp] at hwr
    rw [hwr.2.1] at haw
    cases haw
  | resp b =>
    rw [hp] at hwr
    rw [hwr.2.1] at haw
    cases haw

/-- A response that is not accepted stays. -/
private theorem b_stays (hr : Rel s ph) {i : In P} (hv : s.bvalid = true) (hi : i.bready = false) :
    (posedge s i).bvalid = true ∧ (posedge s i).bid = s.bid ∧ (posedge s i).bresp = s.bresp := by
  have hst : s.wrState = .resp := by
    have hwr := hr.wr
    rw [bvalid_rel hr hv] at hwr
    exact hwr.1
  have hblock : wrBlock s i = s.toWrRegs := by
    unfold wrBlock
    rw [hst, hi, Bool.and_false]
    rfl
  refine ⟨?_, ?_, ?_⟩
  · exact (congrArg WrRegs.bvalid hblock).trans hv
  · exact congrArg WrRegs.bid hblock
  · exact congrArg WrRegs.bresp hblock

end

/-- In every state of a run from reset: what follows an AW handshake is one write that is stored once or not at all and
answered once, and the next AW is accepted within four edges if the master grants W beat and response. -/
theorem write_atomic {s : State P} (hs : Reachable s) :
    (∀ a js, awTaken (a, out s a) ≠ [] → (∀ c ∈ (block P).trace (posedge s a) js, awTaken c = []) →
      WriteServed a.awReq s.regfile ((block P).trace s (a :: js)) ((block P).run s (a :: js))) ∧
    ¬ (s.awready = true ∧ s.wready = true) ∧
    (∀ i, s.bvalid = true → i.bready = false →
      (posedge s i).bvalid = true ∧ (posedge s i).bid = s.bid ∧ (posedge s i).bresp = s.bresp) ∧
    ∀ js : List (In P), js.length = 4 → (∀ j ∈ js, Granting j) → ∃ c ∈ (block P).trace s js, awTaken c ≠ [] := by
  obtain ⟨ph, hr⟩ := hs.rel
  refine ⟨fun a js ha hjs => ?_, ready_exclusive hr, fun i hv hi => b_stays hr hv hi, fun js hlen hjs => ?_⟩
  · rw [out_rel hr] at ha
    rw [trace_eq (rel_posedge hr a)] at hjs
    rw [trace_eq hr, hr.mem]
    exact writeServed_of (rel_run hr (a :: js)) (write_track ha hjs)
  · rw [trace_eq hr]
    refine aw_within hjs ?_
    rw [hlen]
    exact rank_lt ph.wr

/-- A write of two bytes whose W beat comes late. -/
theorem write_atomic_late_beat :
    let z := In.zero {}
    let s := (block {}).run (State.zero {}) [z]
    let a := z.withAw ⟨5, 0x08⟩
    let js := [z, z.withW ⟨5, 0xaabbccdd, 0b0011⟩, { z with bready := true }]
    let g := { (z.withAw ⟨6, 0x0c⟩).withW ⟨6, 1, 0b1111⟩ with bready := true }
    WriteServed a.awReq s.regfile ((block {}).trace s (a :: js)) ((block {}).run s (a :: js)) ∧
      ∃ c ∈ (block {}).trace s [g, g, g, g], awTaken c ≠ [] :=
  ⟨(write_atomic ((reachable_zero _).run _)).1 _ _ (by decide) (by decide),
    (write_atomic ((reachable_zero _).run _)).2.2.2 _ rfl (by simp [Granting, In.withW, In.withAw])⟩

end AxiApb.RegBlock
