import AxiApb.SimpleStall

/-!
# Which data goes to which address in the single-beat bridge

The bridge pairs the next AW with the next W beat and does not look at `WLAST`.  A write of several beats that is
rejected takes one of its W beats only, so that its other beats are left to the writes after it
(`own_data_violated`).  As long as no such write is accepted with a W beat at hand, each APB write carries the data of
its own address (`own_data`).
-/

namespace AxiApb.Simple

open Clocked

variable {P : Params}

/-- The number of the first W beat of the write `n`: each write before it has as many as it asks for. -/
def firstBeat (qs : List (Req P)) (n : Nat) : Nat := ((qs.take n).map Req.beats).sum

/-- The control `k` on port `x` is that of an accepted single-beat write with its own W beat. -/
def OwnData (tr : List (Cycle P)) (x : Bool) (k : Ctrl P) : Prop :=
  ∃ n q w, (awReqs tr)[n]? = some q ∧ q.Single ∧ (wBeats tr)[firstBeat (awReqs tr) n]? = some w ∧ x = q.port ∧
    k = writeCtrl q w

/-- Each APB write that is seen in the trace carries its own data. -/
def AllOwnData (tr : List (Cycle P)) : Prop :=
  ∀ c ∈ tr, ∀ x k, (c.2.apb x).ctrl = some k → k.pwrite = true → OwnData tr x k

/-- An AW for several beats is not accepted in the cycle `c` while a W beat is buffered (`WREADY` is low) or offered. -/
def Unaccompanied (c : Cycle P) : Prop :=
  awTaken c = true → c.1.awlen ≠ 0#8 → c.2.wready = true ∧ c.1.wvalid = false

instance (c : Cycle P) : Decidable (Unaccompanied c) := inferInstanceAs (Decidable (_ → _ → _ ∧ _))

theorem OwnData.mono {tr : List (Cycle P)} {x : Bool} {k : Ctrl P} (h : OwnData tr x k) (c : Cycle P) :
    OwnData (tr ++ [c]) x k := by
  obtain ⟨n, q, w, hq, hs, hw, hx, hk⟩ := h
  have hn : n < (awReqs tr).length := (List.getElem?_eq_some_iff.1 hq).1
  have hfirst : firstBeat (awReqs (tr ++ [c])) n = firstBeat (awReqs tr) n := by
    rw [firstBeat, awReqs_concat, List.take_append_of_le_length hn.le]
    rfl
  have hm : firstBeat (awReqs tr) n < (wBeats tr).length := (List.getElem?_eq_some_iff.1 hw).1
  refine ⟨n, q, w, ?_, hs, ?_, hx, hk⟩
  · rw [awReqs_concat, List.getElem?_append_left hn, hq]
  · rw [hfirst, wBeats_concat, List.getElem?_append_left hm, hw]

/-! ### The halves that have been accepted -/

/-- But for the halves `aw` and `w` that are held, each accepted AW has one accepted W beat, which is all it asks
for. -/
def Paired (tr : List (Cycle P)) (aw : Option (Req P)) (w : Option (WBeat P)) : Prop :=
  ∃ qs ws, awReqs tr = qs ++ aw.toList ∧ wBeats tr = ws ++ w.toList ∧ qs.length = ws.length ∧
    ∀ q ∈ qs, q.len = 0#8

/-- The phase of the bridge, and the halves. -/
def PairTrack (tr : List (Cycle P)) : Phase P → Prop
  | .idle aw w => Paired tr aw w
  | .err q (some w) => Paired tr (some q) (some w) ∧ q.len = 0#8
  | .err _ none => True
  | .wapb q w _ => Paired tr (some q) (some w)
  | _ => Paired tr none none

theorem awAccepted_out (ph : Phase P) (i : In P) :
    awAccepted (i, ph.out i) = if i.awvalid && (ph.isIdle && (!ph.awHeld && !i.arvalid)) then [i.awReq] else [] := rfl

/-- The W half in the idle phase. -/
theorem wTaken_idle (aw : Option (Req P)) (v : Option (WBeat P)) (i : In P) :
    v.toList ++ wTaken (i, (Phase.idle aw v).out i) = (Phase.takeW v i).toList := by
  rw [wTaken_out, Phase.takeW]
  cases v <;> cases i.wvalid <;> cases i.arvalid <;> simp [Phase.isIdle, Phase.wHeld]

section
variable {tr : List (Cycle P)} {ph : Phase P} {i : In P} {aw : Option (Req P)} {w : Option (WBeat P)}

/-- A transfer with its data is one more pair. -/
private theorem Paired.close {q : Req P} {v : WBeat P} (h : Paired tr (some q) (some v)) (hq : q.len = 0#8) :
    Paired tr none none := by
  obtain ⟨qs, ws, hqs, hws, hlen, hall⟩ := h
  refine ⟨qs ++ [q], ws ++ [v], by simp [hqs], by simp [hws], by simp [hlen], ?_⟩
  intro q' hq'
  rcases List.mem_append.1 hq' with hq' | hq'
  · exact hall q' hq'
  · rw [List.mem_singleton.1 hq']
    exact hq

/-- Outside the idle phase nothing is accepted. -/
private theorem Paired.busy (ph : Phase P) (i : In P) (h : Paired tr aw w) (hidle : ph.isIdle = false) :
    Paired (tr ++ [(i, ph.out i)]) aw w := by
  obtain ⟨qs, ws, hqs, hws, hlen, hall⟩ := h
  refine ⟨qs, ws, ?_, ?_, hlen, hall⟩
  · rw [awReqs_concat, awAccepted_out, hidle, hqs]
    simp
  · rw [wBeats_concat, wTaken_out, hidle, hws]
    simp

private def takeAw (aw : Option (Req P)) (i : In P) : Option (Req P) :=
  if aw.isNone && (i.awvalid && !i.arvalid) then some i.awReq else aw

/-- In the idle phase each half that is missing may be accepted. -/
private theorem Paired.idle (h : Paired tr aw w) :
    Paired (tr ++ [(i, (Phase.idle aw w).out i)]) (takeAw aw i) (Phase.takeW w i) := by
  obtain ⟨qs, ws, hqs, hws, hlen, hall⟩ := h
  refine ⟨qs, ws, ?_, ?_, hlen, hall⟩
  · rw [awReqs_concat, awAccepted_out, hqs, takeAw]
    cases aw <;> cases i.awvalid <;> cases i.arvalid <;> simp [Phase.isIdle, Phase.awHeld]
  · rw [wBeats_concat, hws, List.append_assoc, wTaken_idle]

/-- An AW without company starts a rejected write that has no W beat, unless it asks for one beat only. -/
private theorem pairTrack_startWrite {q : Req P} (h : Paired tr (some q) w) (hq : q.Single ∨ w = none ∨ q.len = 0#8) :
    PairTrack tr (.startWrite q w) := by
  rw [Phase.startWrite]
  by_cases hs : q.Single
  · rw [if_pos hs]
    exact h
  · rw [if_neg hs]
    cases w with
    | none => trivial
    | some v =>
      rcases hq with hq | hq | hq
      · exact absurd hq hs
      · cases hq
      · exact ⟨h, hq⟩

private theorem pairTrack_idleStep (h : Paired tr none w) (hc : Unaccompanied (i, (Phase.idle none w).out i)) :
    PairTrack (tr ++ [(i, (Phase.idle none w).out i)]) (.idleStep w i) := by
  have hp := h.idle (i := i)
  rw [Phase.idleStep]
  cases haw : i.awvalid && !i.arvalid with
  | true =>
    have htake : takeAw none i = some i.awReq := by rw [takeAw, haw]; rfl
    rw [if_pos rfl]
    rw [htake] at hp
    refine pairTrack_startWrite hp ?_
    by_cases hlen : i.awlen = 0#8
    · exact Or.inr (Or.inr hlen)
    · have htaken : awTaken (i, (Phase.idle none w).out i) = true := by
        simpa [awTaken, Phase.out, Phase.isIdle, Phase.awHeld] using haw
      obtain ⟨hready, hv⟩ := hc htaken hlen
      right; left
      have hw : w = none := by
        simp only [Phase.out, Phase.isIdle, Phase.wHeld, Bool.true_and, Bool.and_eq_true] at hready
        simpa using hready.1
      rw [hw, Phase.takeW]
      change i.wvalid = false at hv
      rw [hv]
      rfl
  | false =>
    have htake : takeAw none i = none := by rw [takeAw, haw]; rfl
    rw [if_neg Bool.false_ne_true]
    rw [htake] at hp
    cases har : w.isNone && (i.arvalid && !i.awvalid && !i.wvalid) with
    | true =>
      have htakeW : Phase.takeW w i = none := by
        simp only [Bool.and_eq_true, Option.isNone_iff_eq_none, Bool.not_eq_true'] at har
        rw [har.1, Phase.takeW, har.2.2]
        rfl
      rw [htakeW] at hp
      rw [if_pos rfl, Phase.startRead]
      split <;> exact hp
    | false => exact hp

/-- One cycle. -/
private theorem pairTrack_step (hok : ph.Ok) (h : PairTrack tr ph) (hc : Unaccompanied (i, ph.out i)) :
    PairTrack (tr ++ [(i, ph.out i)]) (ph.step i) := by
  cases ph with
  | idle aw w =>
    cases aw with
    | none => exact pairTrack_idleStep h hc
    | some q =>
      have hp := Paired.idle (i := i) h
      cases w with
      | none => exact hp
      | some v => exact hp
  | err q w =>
    cases w with
    | none => trivial -- left by no input
    | some v => exact Paired.busy (.err q (some v)) i (h.1.close h.2) rfl
  | wapb q v en =>
    have hp := Paired.busy (.wapb q v en) i h rfl
    cases en with
    | false => exact hp
    | true =>
      rw [Phase.step]
      split
      · exact hp.close hok.1
      · exact hp
  | wresp b =>
    have hp := Paired.busy (.wresp b) i h rfl
    cases b with
    | none => exact hp
    | some v =>
      rw [Phase.step]
      split <;> exact hp
  | rapb q en =>
    have hp := Paired.busy (.rapb q en) i h rfl
    cases en with
    | false => exact hp
    | true =>
      rw [Phase.step]
      split <;> exact hp
  | rresp r =>
    have hp := Paired.busy (.rresp r) i h rfl
    cases r with
    | none => exact hp
    | some v =>
      rw [Phase.step]
      split <;> exact hp

private theorem sum_beats {qs : List (Req P)} (h : ∀ q ∈ qs, q.len = 0#8) : (qs.map Req.beats).sum = qs.length := by
  induction qs with
  | nil => rfl
  | cons q qs ih =>
    have hq : q.beats = 1 := by rw [Req.beats, h q (List.mem_cons_self ..)]; rfl
    rw [List.map_cons, List.sum_cons, hq, ih (fun q' hq' => h q' (List.mem_cons_of_mem _ hq')), List.length_cons,
      Nat.add_comm]

/-- The pair in transfer is an AW with its own W beat. -/
private theorem ownData_of_paired {q : Req P} {v : WBeat P} (h : Paired tr (some q) (some v)) (hq : q.Single) :
    OwnData tr q.port (writeCtrl q v) := by
  obtain ⟨qs, ws, hqs, hws, hlen, hall⟩ := h
  have hfirst : firstBeat (awReqs tr) qs.length = ws.length := by
    rw [firstBeat, hqs, List.take_left, sum_beats hall, hlen]
  refine ⟨qs.length, q, v, by simp [hqs], hq, ?_, rfl, rfl⟩
  rw [hfirst, hws]
  simp

private theorem ownData_shown (hok : ph.Ok) (h : PairTrack tr ph) {x : Bool} {k : Ctrl P}
    (hk : (ph.apb x).ctrl = some k) (hwrite : k.pwrite = true) : OwnData tr x k := by
  cases ph with
  | wapb q v en =>
    rw [Phase.apb] at hk
    split at hk
    · rename_i hx
      cases hk
      rw [hx]
      exact ownData_of_paired h hok
    · cases hk
  | rapb q en =>
    rw [Phase.apb] at hk
    split at hk
    · cases hk
      cases hwrite
    · cases hk
  | idle | err | wresp | rresp => cases hk

end

/-! ### Runs -/

/-- In a run in which no AW for several beats is accepted with a W beat at hand, each APB write carries the data of its
own address. -/
theorem own_data {s₀ : State P} {is : List (In P)} (h0 : IsReset s₀)
    (hc : ∀ c ∈ (bridge P).trace s₀ is, Unaccompanied c) : AllOwnData ((bridge P).trace s₀ is) := by
  have hstart : PairTrack (P := P) [] (.idle none none) := ⟨[], [], rfl, rfl, rfl, by simp⟩
  have := Machine.track (M := bridge P) (I := fun tr s => ∃ ph, Rel s ph ∧ PairTrack tr ph ∧ AllOwnData tr)
    (fun tr s i ⟨ph, hr, ht, hall⟩ hci => ?_) ⟨_, rel_reset h0, hstart, by simp [AllOwnData]⟩ hc
  · obtain ⟨-, -, -, hall⟩ := this
    exact hall
  · have hout : (bridge P).out s i = ph.out i := out_rel hr i
    rw [hout] at hci ⊢
    refine ⟨_, rel_posedge hr i, pairTrack_step hr.ok ht hci, ?_⟩
    intro c hmem x k hk hwrite
    apply OwnData.mono
    rcases List.mem_append.1 hmem with hold | hnew
    · exact hall c hold x k hk hwrite
    · rw [List.mem_singleton.1 hnew] at hk
      have hapb : (ph.out i).apb x = ph.apb x := by cases x <;> rfl
      rw [hapb] at hk
      exact ownData_shown hr.ok ht hk hwrite

/-- A write whose W beat leads its AW. -/
theorem own_data_w_first :
    let r := In.ready (contract 4)
    AllOwnData ((bridge _).trace (State.zero _)
      [r.withW ⟨7, 0xff, true⟩, r, r.withAw ⟨5, 0x1000, 0, 0b011, 0b01, 0⟩, r, r, r, r, r]) :=
  own_data (isReset_zero _) (by decide +kernel)

/-! ### A compliant master -/

/-- What is offered and not taken in the cycle `c` is offered in the next cycle `d`. -/
def Kept (c d : Cycle P) : Prop :=
  (c.1.awvalid = true → c.2.awready = false → d.1.awvalid = true ∧ d.1.awReq = c.1.awReq) ∧
    (c.1.wvalid = true → c.2.wready = false → d.1.wvalid = true ∧ d.1.wBeat = c.1.wBeat) ∧
      (c.1.arvalid = true → c.2.arready = false → d.1.arvalid = true ∧ d.1.arReq = c.1.arReq)

/-- `WLAST` on the beats of a write. -/
def lastFlags (q : Req P) : List Bool := List.replicate q.len.toNat false ++ [true]

/-- The master keeps what it offers, asks for no read while it offers a half of a write, and gives each of its writes
`qs`, in order, `AWLEN + 1` W beats of which the last one carries `WLAST`. -/
def Compliant (tr : List (Cycle P)) : Prop :=
  tr.IsChain Kept ∧ (∀ c ∈ tr, Serialized c.1) ∧
    ∃ qs, awReqs tr <+: qs ∧ (wBeats tr).map (·.wlast) <+: qs.flatMap lastFlags

instance (c d : Cycle P) : Decidable (Kept c d) := inferInstanceAs (Decidable (_ ∧ _ ∧ _))

instance (i : In P) : Decidable (Serialized i) := inferInstanceAs (Decidable (_ → _ ∧ _))

/-- A write of two beats to `0x1000`, which is rejected, and then a write to `0x2000`. -/
theorem own_data_violated :
    ¬ ∀ is, Compliant ((bridge (contract 4)).trace (State.zero _) is) →
      AllOwnData ((bridge (contract 4)).trace (State.zero _) is) := by
  intro h
  let r := In.ready (contract 4)
  let q : Req (contract 4) := ⟨1, 0x1000, 1, 0b011, 0b01, 0⟩
  let q' : Req (contract 4) := ⟨2, 0x2000, 0, 0b011, 0b01, 0⟩
  let second := r.withW ⟨2, 0xff, true⟩
  let third := r.withW ⟨3, 0xff, true⟩
  let is := [(r.withAw q).withW ⟨1, 0xff, false⟩, second, second, second, second.withAw q', third, third, third, third,
    third, third]
  let tr := (bridge (contract 4)).trace (State.zero _) is
  have hreqs : awReqs tr = [q, q'] := by decide +kernel
  have hbeats : wBeats tr = [⟨1, 0xff, false⟩, ⟨2, 0xff, true⟩, ⟨3, 0xff, true⟩] := by decide +kernel
  have hcompliant : Compliant tr :=
    ⟨by decide +kernel, by decide +kernel, [q, q'], by rw [hreqs], by rw [hbeats]; decide⟩
  -- the transfer to `0x2000` in its setup phase
  let k : Ctrl (contract 4) := ⟨0x2000, 0, true, some (2, 0xff)⟩
  have hshown : ∃ c ∈ tr, (c.2.apb false).ctrl = some k := by decide +kernel
  obtain ⟨c, hc, hk⟩ := hshown
  obtain ⟨n, q₁, w, hq, hs, hw, -, he⟩ := h is hcompliant c hc false k hk rfl
  change (awReqs tr)[n]? = _ at hq
  change (wBeats tr)[firstBeat (awReqs tr) n]? = _ at hw
  rw [hreqs] at hq hw
  rw [hbeats] at hw
  match n with
  | 0 =>
    cases hq
    exact absurd hs (by decide)
  | 1 =>
    cases hq
    cases hw
    exact absurd he (by decide)
  | n + 2 => simp at hq

end AxiApb.Simple
