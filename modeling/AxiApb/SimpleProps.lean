import AxiApb.FormalWrapper
import AxiApb.SimpleSafety
import AxiApb.SimpleStall

/-!
# The formal wrapper of the single-beat bridge

`apb4_simple_props`: its checks P1 to P5 hold at every edge of every run, and under its assumptions so do L1 to L5, at
any depth and with room to spare (`wrapper_holds`).
-/

namespace AxiApb.SimpleProps

open Clocked Simple Formal

variable {P : Params}

/-! ### The registers of the wrapper -/

/-- The counters, and the two halves of a write that wait for each other. -/
structure Watch where
  timers : Timers 5
  wNeedsAw : Bool
  awNeedsW : Bool
  orphanWWait : BitVec 3
  orphanAwWait : BitVec 3
deriving DecidableEq

def Watch.zero : Watch := ⟨.zero 5, false, false, 0, 0⟩

def wAccepted (c : Cycle P) : Bool := c.1.wvalid && c.2.wready

def Watch.next (k : Watch) (c : Cycle P) : Watch where
  timers := k.timers.next (apbSetup false c && !k.timers.apbRd.live) c
  wNeedsAw :=
    if awTaken c || c.2.b.isSome then false else if wAccepted c && !awTaken c then true else k.wNeedsAw
  awNeedsW :=
    if wAccepted c || c.2.b.isSome then false else if awTaken c && !wAccepted c then true else k.awNeedsW
  orphanWWait := count k.wNeedsAw k.orphanWWait
  orphanAwWait := count k.awNeedsW k.orphanAwWait

def wrapper (P : Params) : Machine (Bool × In P) (Edge P Watch) (Formal.State P (Simple.State P) Watch) :=
  Formal.wrapper (bridge P) reset Watch.zero Watch.next

/-- Power-on with all registers zero; only `f_past_valid` has to be. -/
def powerOn (P : Params) : Formal.State P (Simple.State P) Watch :=
  ⟨.zero P, .zero, false, false, (In.zero P, out (.zero P) (In.zero P))⟩

/-- No half of a write waits longer than five cycles for the other. -/
structure Watch.Paired (k : Watch) : Prop where
  orphanW : k.orphanWWait < 5
  orphanAw : k.orphanAwWait < 5

/-- The assumptions on a cycle: the partners answer in time, the halves of a write come in time, and a read is offered
alone. -/
structure Paced (k : Watch) (c : Cycle P) : Prop extends Watch.Paired k where
  prompt : k.timers.Prompt
  aloneAw : ¬ (c.1.awvalid = true ∧ c.1.arvalid = true)
  aloneW : ¬ (c.1.wvalid = true ∧ c.1.arvalid = true)

instance (k : Watch) (c : Cycle P) : Decidable (Paced k c) :=
  decidable_of_iff ((k.orphanWWait < 5 ∧ k.orphanAwWait < 5) ∧ k.timers.Prompt ∧
      ¬ (c.1.awvalid = true ∧ c.1.arvalid = true) ∧ ¬ (c.1.wvalid = true ∧ c.1.arvalid = true))
    ⟨fun ⟨⟨h1, h2⟩, h3, h4, h5⟩ => ⟨⟨h1, h2⟩, h3, h4, h5⟩, fun h => ⟨⟨h.orphanW, h.orphanAw⟩, h.prompt, h.aloneAw, h.aloneW⟩⟩

/-! ### The ports -/

section
variable {ph : Phase P} {i : In P}

theorem apb_out (ph : Phase P) (i : In P) (x : Bool) : (ph.out i).apb x = ph.apb x := by
  cases x <;> rfl

theorem b_done (hb : ph.b.isSome = true) (hi : i.bready = true) : (ph.step i).b = none := by
  cases ph with
  | wresp b =>
    cases b with
    | none => cases hb
    | some b =>
      rw [Phase.step, hi]
      rfl
  | _ => cases hb

theorem r_done (hr : ph.r.isSome = true) (hi : i.rready = true) : (ph.step i).r = none := by
  cases ph with
  | rresp r =>
    cases r with
    | none => cases hr
    | some r =>
      rw [Phase.step, hi]
      rfl
  | _ => cases hr

private theorem portChecks_of_seen {I : Watch → Phase P → Prop} {e : Edge P Watch} (h : Seen (engine P) I e ph)
    (hpast : e.pastResetn = true) : PortChecks e.past e.now := by
  obtain ⟨ph₀, hout, rfl⟩ := h.past hpast
  have hnow : e.now.2 = (ph₀.step e.past.1).out e.now.1 := h.now
  refine PortChecks.of_moves (fun x => ?_) ?_ (fun hb hi => ?_) (fun hr hi => ?_)
  · rw [hout, hnow]
    show ApbMove ((ph₀.out e.past.1).apb x) _ _
    rw [apb_out, apb_out]
    exact apb_step ph₀ e.past.1 x
  · obtain ⟨x, hx⟩ := exists_quiet (ph₀.step e.past.1)
    exact ⟨x, by rw [hnow, apb_out, hx]⟩
  · rw [hout] at hb
    rw [hnow]
    exact b_done hb hi
  · rw [hout] at hr
    rw [hnow]
    exact r_done hr hi

end

/-! ### How long a phase lasts -/

/-- The cycles of the wait that a phase is in. -/
def spent (k : Watch) : Phase P → Nat
  | .idle none (some _) => k.orphanWWait.toNat
  | .idle (some _) none | .err _ none => k.orphanAwWait.toNat
  | .wapb q _ true | .rapb q true => (k.timers.pWait q.port).toNat
  | .wresp (some _) => k.timers.bw.toNat
  | .rresp (some _) => k.timers.rw.toNat
  | _ => 0

/-- The slave, `BREADY` or `RREADY` is missing. -/
def waits : Phase P → In P → Bool
  | .wapb q _ true, i | .rapb q true, i => !i.pready q.port
  | .wresp (some _), i => !i.bready
  | .rresp (some _), i => !i.rready
  | _, _ => false

/-- The cycles to the end of the transaction, counted from where the phase begins. -/
def left : Phase P → Nat
  | .idle none none => 0
  | .idle none (some _) | .idle (some _) none | .err _ none => 17
  | .idle (some _) (some _) => 13
  | .err _ (some _) => 7
  | .wapb _ _ en | .rapb _ en => if en then 11 else 12
  | .wresp b => if b.isSome then 6 else 1
  | .rresp r => if r.isSome then 6 else 1

/-- The cycles to `BVALID` or `RVALID`, from the access phase on. -/
def leftResp : Phase P → Nat
  | .wapb .. | .rapb .. => 5
  | _ => 0

def writing : Phase P → Bool
  | .wapb _ _ en => en
  | .wresp b => b.isSome
  | _ => false

def returning : Phase P → Bool
  | .rapb _ en => en
  | .rresp r => r.isSome
  | _ => false

/-- What the wrapper takes to be missing. -/
def Flags (k : Watch) : Phase P → Prop
  | .idle none none | .wresp none | .rapb .. | .rresp _ => k.wNeedsAw = false ∧ k.awNeedsW = false
  | .idle none (some _) => k.wNeedsAw = true ∧ k.awNeedsW = false
  | .idle (some _) none | .err _ none => k.wNeedsAw = false ∧ k.awNeedsW = true
  | _ => True

section
variable {k : Watch} {ph : Phase P} {i : In P}

theorem awTaken_out (ph : Phase P) (i : In P) :
    awTaken (i, ph.out i) = (i.awvalid && (ph.isIdle && (!ph.awHeld && !i.arvalid))) := rfl

theorem wAccepted_out (ph : Phase P) (i : In P) :
    wAccepted (i, ph.out i) = (i.wvalid && (ph.isIdle && (!ph.wHeld && !i.arvalid))) := rfl

/-- Outside the idle phase only `BVALID` moves the flags. -/
theorem next_busy (h : ph.isIdle = false) :
    (k.next (i, ph.out i)).wNeedsAw = (if ph.b.isSome then false else k.wNeedsAw) ∧
      (k.next (i, ph.out i)).awNeedsW = if ph.b.isSome then false else k.awNeedsW := by
  have haw : awTaken (i, ph.out i) = false := by rw [awTaken_out, h, Bool.false_and, Bool.and_false]
  have hw : wAccepted (i, ph.out i) = false := by rw [wAccepted_out, h, Bool.false_and, Bool.and_false]
  have hb : (ph.out i).b = ph.b := rfl
  simp only [Watch.next, haw, hw, hb, Bool.false_or, Bool.false_and, Bool.false_eq_true, if_false, and_self]

/-- In the idle phase the flags follow the two handshakes. -/
theorem next_idle (aw : Option (Req P)) (w : Option (WBeat P)) {a b : Bool}
    (ha : awTaken (i, (Phase.idle aw w).out i) = a) (hb : wAccepted (i, (Phase.idle aw w).out i) = b) :
    (k.next (i, (Phase.idle aw w).out i)).wNeedsAw = (if a then false else if b then true else k.wNeedsAw) ∧
      (k.next (i, (Phase.idle aw w).out i)).awNeedsW = if b then false else if a then true else k.awNeedsW := by
  have hn : ((Phase.idle aw w).out i).b = none := rfl
  simp only [Watch.next, ha, hb, hn]
  cases a <;> cases b <;> simp

/-- A write request is accepted. -/
private theorem flags_startWrite {q : Req P} {w : Option (WBeat P)}
    (h : w = none → k.wNeedsAw = false ∧ k.awNeedsW = true) :
    Flags k (Phase.startWrite q w) := by
  rw [Phase.startWrite]
  cases w with
  | none => split <;> exact h rfl
  | some v => split <;> trivial

theorem flags_step (h : Flags k ph) (i : In P) : Flags (k.next (i, ph.out i)) (ph.step i) := by
  cases ph with
  | idle aw w =>
    cases aw with
    | some q =>
      cases w with
      | some v => trivial
      | none =>
        have haw : awTaken (i, (Phase.idle (some q) none).out i) = false := by simp [awTaken_out, Phase.awHeld]
        obtain ⟨hn, ha⟩ := next_idle (k := k) (some q) none haw rfl
        rw [Phase.step, Phase.takeW]
        split
        · trivial
        · rename_i hw
          have hw' : wAccepted (i, (Phase.idle (some q) none).out i) = false := Bool.eq_false_iff.2 hw
          rw [hw'] at hn ha
          exact ⟨hn.trans h.1, ha.trans h.2⟩
    | none =>
      rw [Phase.step, Phase.idleStep]
      cases haw : i.awvalid && !i.arvalid with
      | true =>
        obtain ⟨hn, ha⟩ := next_idle (k := k) (i := i) none w haw rfl
        rw [if_pos rfl]
        refine flags_startWrite fun hnone => ?_
        have hw : wAccepted (i, (Phase.idle none w).out i) = false := by
          rw [Phase.takeW] at hnone
          split at hnone
          · cases hnone
          · rename_i hw
            cases w with
            | none => exact Bool.eq_false_iff.2 hw
            | some v => cases hnone
        rw [hn, ha, hw]
        exact ⟨rfl, rfl⟩
      | false =>
        obtain ⟨hn, ha⟩ := next_idle (k := k) (i := i) none w haw rfl
        rw [if_neg Bool.false_ne_true]
        cases w with
        | some v =>
          have hw : wAccepted (i, (Phase.idle none (some v)).out i) = false := by simp [wAccepted_out, Phase.wHeld]
          rw [hw] at hn ha
          exact ⟨hn.trans h.1, ha.trans h.2⟩
        | none =>
          cases hw : i.wvalid && !i.arvalid with
          | true =>
            have hwv : i.wvalid = true := (Bool.and_eq_true_iff.1 hw).1
            have hw' : wAccepted (i, (Phase.idle (P := P) none none).out i) = true := hw
            have htake : Phase.takeW none i = some i.wBeat := by rw [Phase.takeW, hw]; rfl
            rw [hw'] at hn ha
            rw [htake, if_neg (by simp [hwv])]
            exact ⟨hn, ha⟩
          | false =>
            have hw' : wAccepted (i, (Phase.idle (P := P) none none).out i) = false := hw
            have htake : Phase.takeW none i = none := by rw [Phase.takeW, hw]; rfl
            rw [hw'] at hn ha
            have hboth := And.intro (hn.trans h.1) (ha.trans h.2)
            rw [htake, Phase.startRead]
            repeat' split
            all_goals exact hboth
  | err q w =>
    cases w with
    | some v => trivial
    | none => exact ⟨(next_busy rfl).1.trans h.1, (next_busy rfl).2.trans h.2⟩
  | wapb q w en =>
    cases en with
    | false => trivial
    | true => rw [Phase.step]; split <;> trivial
  | wresp b =>
    have hbusy : (Phase.wresp b).isIdle = false := rfl
    obtain ⟨hw, ha⟩ := next_busy (k := k) (i := i) hbusy
    cases b with
    | none => exact ⟨hw.trans h.1, ha.trans h.2⟩
    | some b =>
      rw [Phase.step]
      split
      · exact ⟨hw, ha⟩
      · trivial
  | rapb q en =>
    have hboth : (k.next (i, (Phase.rapb q en).out i)).wNeedsAw = false ∧
        (k.next (i, (Phase.rapb q en).out i)).awNeedsW = false :=
      ⟨(next_busy rfl).1.trans h.1, (next_busy rfl).2.trans h.2⟩
    cases en with
    | false => exact hboth
    | true => rw [Phase.step]; split <;> exact hboth
  | rresp r =>
    have hboth : (k.next (i, (Phase.rresp r).out i)).wNeedsAw = false ∧
        (k.next (i, (Phase.rresp r).out i)).awNeedsW = false :=
      ⟨(next_busy rfl).1.trans h.1, (next_busy rfl).2.trans h.2⟩
    cases r with
    | none => exact hboth
    | some r => rw [Phase.step]; split <;> exact hboth

/-! ### Each cycle counts -/

/-- The counter of a half that is missing. -/
theorem orphan_count {n : BitVec 3} {flag : Bool} (hflag : flag = true) (h : n < 5) :
    (count flag n).toNat = n.toNat + 1 := by
  have : n.toNat < 5 := h
  rw [hflag, count_toNat (by omega), if_pos rfl]

private theorem pWait_drive {q : Req P} {c : Ctrl P} (hp : k.timers.Prompt)
    (h : ∀ x, ph.apb x = if x = q.port then ⟨true, true, some c⟩ else .quiet) (hi : i.pready q.port = false) :
    ((k.next (i, ph.out i)).timers.pWait q.port).toNat = (k.timers.pWait q.port).toNat + 1 := by
  have hapb : (ph.out i).apb q.port = ⟨true, true, some c⟩ := by rw [apb_out, h, if_pos rfl]
  have := Timers.pWait_next (apbSetup false (i, ph.out i) && !k.timers.apbRd.live) (i, ph.out i) q.port
    (hp.pWait q.port)
  rw [hapb, hi] at this
  exact this

/-- A slave or a response that is waited for leaves the phase as it is, and is counted. -/
theorem wait_step (hp : k.timers.Prompt) (h : waits ph i = true) :
    ph.step i = ph ∧ spent (k.next (i, ph.out i)) ph = spent k ph + 1 := by
  have hb : k.timers.bw.toNat < 5 := hp.bw
  have hr : k.timers.rw.toNat < 5 := hp.rw
  cases ph with
  | idle | err => cases h
  | wapb q w en =>
    cases en with
    | false => cases h
    | true =>
      have hi : i.pready q.port = false := by simpa [waits] using h
      have hapb : ∀ x, (Phase.wapb q w true).apb x = if x = q.port then ⟨true, true, some (writeCtrl q w)⟩ else .quiet :=
        fun _ => rfl
      exact ⟨by rw [Phase.step, hi]; rfl, pWait_drive hp hapb hi⟩
  | rapb q en =>
    cases en with
    | false => cases h
    | true =>
      have hi : i.pready q.port = false := by simpa [waits] using h
      have hapb : ∀ x, (Phase.rapb q true).apb x = if x = q.port then ⟨true, true, some (readCtrl q)⟩ else .quiet :=
        fun _ => rfl
      exact ⟨by rw [Phase.step, hi]; rfl, pWait_drive hp hapb hi⟩
  | wresp b =>
    cases b with
    | none => cases h
    | some b =>
      have hi : i.bready = false := by simpa [waits] using h
      refine ⟨by rw [Phase.step, hi]; rfl, ?_⟩
      show (count (true && !i.bready) k.timers.bw).toNat = k.timers.bw.toNat + 1
      rw [hi, count_toNat (by omega)]
      rfl
  | rresp r =>
    cases r with
    | none => cases h
    | some r =>
      have hi : i.rready = false := by simpa [waits] using h
      refine ⟨by rw [Phase.step, hi]; rfl, ?_⟩
      show (count (true && !i.rready) k.timers.rw).toNat = k.timers.rw.toNat + 1
      rw [hi, count_toNat (by omega)]
      rfl

theorem spent_lt_left (hp : k.timers.Prompt) (h : waits ph i = true) : spent k ph + 1 < left ph := by
  have hb : k.timers.bw.toNat < 5 := hp.bw
  have hr : k.timers.rw.toNat < 5 := hp.rw
  cases ph with
  | idle | err => cases h
  | wapb q _ en | rapb q en =>
    have hq := hp.pWait q.port
    cases en with
    | false => cases h
    | true => simp only [spent, left, if_true]; omega
  | wresp b | rresp b =>
    cases b with
    | none => cases h
    | some b => simp only [spent, left, Option.isSome_some, if_true]; omega

/-- From the idle phase with a W beat held. -/
private theorem fall_wHeld {v : WBeat P} (hf : k.wNeedsAw = true) (hc : k.orphanWWait < 5)
    (hc' : (k.next (i, (Phase.idle none (some v)).out i)).orphanWWait < 5) :
    left ((Phase.idle none (some v)).step i) -
        spent (k.next (i, (Phase.idle none (some v)).out i)) ((Phase.idle none (some v)).step i) + 1 ≤
      17 - k.orphanWWait.toNat := by
  have hlt : k.orphanWWait.toNat < 5 := hc
  have ho : (k.next (i, (Phase.idle none (some v)).out i)).orphanWWait.toNat = k.orphanWWait.toNat + 1 :=
    orphan_count hf hc
  have hlt' : (k.next (i, (Phase.idle none (some v)).out i)).orphanWWait.toNat < 5 := hc'
  have htake : Phase.takeW (some v) i = some v := rfl
  rw [Phase.step, Phase.idleStep, htake, Phase.startWrite]
  split
  · split <;> simp only [left, spent] <;> omega
  · simp only [Option.isNone_some, Bool.false_and, Bool.false_eq_true, if_false, left, spent]
    omega

/-- While a transaction is in progress, each cycle that meets the assumptions brings its end nearer by one. -/
theorem left_step (hf : Flags k ph) (hc : Paced k (i, ph.out i)) (hc' : (k.next (i, ph.out i)).Paired)
    (hbusy : left ph ≠ 0) :
    left (ph.step i) - spent (k.next (i, ph.out i)) (ph.step i) + 1 ≤ left ph - spent k ph := by
  have hp := hc.prompt
  cases hw : waits ph i with
  | true =>
    obtain ⟨hstay, hspent⟩ := wait_step (k := k) hp hw
    rw [hstay, hspent]
    have : spent k ph + 1 < left ph := spent_lt_left hp hw
    omega
  | false =>
    cases ph with
    | idle aw w =>
      cases aw with
      | none =>
        cases w with
        | none => exact absurd rfl hbusy
        | some v => exact fall_wHeld hf.1 hc.orphanW hc'.orphanW
      | some q =>
        cases w with
        | some v =>
          simp only [Phase.step, left, spent, Bool.false_eq_true, if_false]
          omega
        | none =>
          have hlt : k.orphanAwWait.toNat < 5 := hc.orphanAw
          have ho : (k.next (i, (Phase.idle (some q) none).out i)).orphanAwWait.toNat = k.orphanAwWait.toNat + 1 :=
            orphan_count hf.2 hc.orphanAw
          have hlt' : (k.next (i, (Phase.idle (some q) none).out i)).orphanAwWait.toNat < 5 := hc'.orphanAw
          rw [Phase.step, Phase.takeW]
          split <;> simp only [left, spent] <;> omega
    | err q w =>
      cases w with
      | some v =>
        simp only [Phase.step, left, spent, Option.isSome_some, if_true]
        omega
      | none =>
        have hlt : k.orphanAwWait.toNat < 5 := hc.orphanAw
        have ho : (k.next (i, (Phase.err q none).out i)).orphanAwWait.toNat = k.orphanAwWait.toNat + 1 :=
          orphan_count hf.2 hc.orphanAw
        simp only [Phase.step, left, spent]
        omega
    | wapb q w en =>
      cases en with
      | false =>
        have hs : spent k (Phase.wapb q w false) = 0 := rfl
        simp only [Phase.step, left, hs, Bool.false_eq_true, if_false, if_true]
        omega
      | true =>
        have hlt := hp.pWait q.port
        have hi : i.pready q.port = true := by simpa [waits] using hw
        simp only [Phase.step, hi, left, spent, Option.isSome_some, if_true]
        omega
    | rapb q en =>
      cases en with
      | false =>
        have hs : spent k (Phase.rapb q false) = 0 := rfl
        simp only [Phase.step, left, hs, Bool.false_eq_true, if_false, if_true]
        omega
      | true =>
        have hlt := hp.pWait q.port
        have hi : i.pready q.port = true := by simpa [waits] using hw
        simp only [Phase.step, hi, left, spent, Option.isSome_some, if_true]
        omega
    | wresp b =>
      cases b with
      | none => simp [Phase.step, left, spent]
      | some b =>
        have hlt : k.timers.bw.toNat < 5 := hp.bw
        have hi : i.bready = true := by simpa [waits] using hw
        simp [Phase.step, hi, left, spent]
        omega
    | rresp r =>
      cases r with
      | none => simp [Phase.step, left, spent]
      | some r =>
        have hlt : k.timers.rw.toNat < 5 := hp.rw
        have hi : i.rready = true := by simpa [waits] using hw
        simp [Phase.step, hi, left, spent]
        omega

/-- From the access phase of a write or a read on, each cycle brings the response nearer by one. -/
theorem leftResp_step (hp : k.timers.Prompt) (hactive : writing ph = true ∨ returning ph = true)
    (hb : ph.b = none) (hr : ph.r = none) :
    leftResp (ph.step i) - spent (k.next (i, ph.out i)) (ph.step i) + 1 ≤ leftResp ph - spent k ph := by
  cases hw : waits ph i with
  | true =>
    obtain ⟨hstay, hspent⟩ := wait_step (k := k) hp hw
    have hlt := spent_lt_left hp hw
    rw [hstay, hspent]
    cases ph with
    | wapb q _ en | rapb q en =>
      have hq := hp.pWait q.port
      cases en with
      | false => cases hw
      | true => simp only [leftResp, spent]; omega
    | wresp b =>
      cases b with
      | none => cases hw
      | some b => cases hb
    | rresp r =>
      cases r with
      | none => cases hw
      | some r => cases hr
    | _ => cases hw
  | false =>
    cases ph with
    | wapb q _ en | rapb q en =>
      have hq := hp.pWait q.port
      cases en with
      | false => rcases hactive with h | h <;> cases h
      | true =>
        have hi : i.pready q.port = true := by simpa [waits] using hw
        simp only [Phase.step, hi, if_true, leftResp, spent]
        omega
    | wresp b =>
      cases b with
      | none => rcases hactive with h | h <;> cases h
      | some b => cases hb
    | rresp r =>
      cases r with
      | none => rcases hactive with h | h <;> cases h
      | some r => cases hr
    | _ => rcases hactive with h | h <;> cases h

theorem writing_step (hw : writing ph = true) (hb : ph.b = none) : writing (ph.step i) = true := by
  cases ph with
  | wapb q w en =>
    cases en with
    | false => cases hw
    | true => rw [Phase.step]; split <;> rfl
  | wresp b =>
    cases b with
    | none => cases hw
    | some b => cases hb
  | _ => cases hw

theorem returning_step (hr : returning ph = true) (hn : ph.r = none) : returning (ph.step i) = true := by
  cases ph with
  | rapb q en =>
    cases en with
    | false => cases hr
    | true => rw [Phase.step]; split <;> rfl
  | rresp r =>
    cases r with
    | none => cases hr
    | some r => cases hn
  | _ => cases hr

theorem writing_quiet (hw : writing ph = true) : ph.r = none := by
  cases ph with
  | rresp => cases hw
  | _ => rfl

theorem returning_quiet (hr : returning ph = true) : ph.b = none := by
  cases ph with
  | wresp => cases hr
  | _ => rfl

end

/-! ### The invariant -/

/-- The phase is the setup phase of a write, or of a read. -/
def launched (write : Bool) : Phase P → Bool
  | .wapb _ _ en => !en && write
  | .rapb _ en => !en && !write
  | _ => false

theorem apbSetup_out (write : Bool) (ph : Phase P) (i : In P) : apbSetup write (i, ph.out i) = launched write ph := by
  cases ph with
  | wapb q w en =>
    rw [apbSetup_drive (y := q.port) (k := writeCtrl q w) write (apb_out _ i)]
    cases en <;> cases write <;> rfl
  | rapb q en =>
    rw [apbSetup_drive (y := q.port) (k := readCtrl q) write (apb_out _ i)]
    cases en <;> cases write <;> rfl
  | _ => exact apbSetup_quiet write (apb_out _ i)

/-- The invariant behind the deadlines, where no half of a write is overdue. -/
structure InTime (k : Watch) (ph : Phase P) : Prop where
  flags : Flags k ph
  stalls : k.Paired → ∀ n ∈ [k.timers.awStall, k.timers.wStall, k.timers.arStall],
    n.toNat + (left ph - spent k ph) ≤ 17
  toB : k.timers.apbWr.Within (writing ph) (leftResp ph - spent k ph) 5
  toR : k.timers.apbRd.Within (returning ph) (leftResp ph - spent k ph) 5

theorem inTime_zero : InTime Watch.zero (.idle none none : Phase P) where
  flags := ⟨rfl, rfl⟩
  stalls := by simp [Watch.zero, Timers.zero, left]
  toB := Latency.within_zero _ _ _
  toR := Latency.within_zero _ _ _

section
variable {k : Watch} {ph : Phase P} {i : In P}

private theorem left_le (ph : Phase P) : left ph ≤ 17 := by
  unfold left
  split
  all_goals first | omega | (split <;> omega)

/-- What is offered is stalled by a transaction in progress only. -/
private theorem stall_le {n : BitVec 5} {valid ready : Bool} (hf : Flags k ph) (hc : Paced k (i, ph.out i))
    (hc' : (k.next (i, ph.out i)).Paired) (hready : left ph = 0 → valid = true → ready = true)
    (hn : n.toNat + (left ph - spent k ph) ≤ 17) :
    (count (valid && !ready) n).toNat + (left (ph.step i) - spent (k.next (i, ph.out i)) (ph.step i)) ≤ 17 := by
  by_cases hl : left ph = 0
  · have hgo : (valid && !ready) = false := by
      cases hv : valid with
      | false => rfl
      | true => rw [hready hl hv]; rfl
    have := left_le (ph.step i)
    rw [hgo]
    show (0#5).toNat + _ ≤ 17
    rw [BitVec.toNat_zero]
    omega
  · have hstep := left_step hf hc hc' hl
    exact count_le (by decide) hn (fun _ => hstep) (fun _ => by omega)

private theorem idle_of_left (h : left ph = 0) : ph = .idle none none := by
  cases ph with
  | idle aw w =>
    cases aw <;> cases w <;> first | rfl | cases h
  | err q w => cases w <;> cases h
  | wapb _ _ en | rapb _ en => cases en <;> cases h
  | wresp b | rresp b => cases b <;> cases h

theorem inTime_step (h : InTime k ph) (hc : Paced k (i, ph.out i)) : InTime (k.next (i, ph.out i)) (ph.step i) where
  flags := flags_step h.flags i
  stalls := by
    intro hc'
    have hs := h.stalls hc.toPaired
    simp only [List.forall_mem_cons, List.not_mem_nil, false_implies, implies_true, and_true] at hs ⊢
    obtain ⟨haw, hw, har⟩ := hs
    refine ⟨stall_le h.flags hc hc' (fun hl hv => ?_) haw, stall_le h.flags hc hc' (fun hl hv => ?_) hw,
      stall_le h.flags hc hc' (fun hl hv => ?_) har⟩
    all_goals rw [idle_of_left hl]
    · have hne : i.arvalid = false := Bool.eq_false_iff.2 fun ha => hc.aloneAw ⟨hv, ha⟩
      simp [Phase.out, Phase.isIdle, Phase.awHeld, hne]
    · have hne : i.arvalid = false := Bool.eq_false_iff.2 fun ha => hc.aloneW ⟨hv, ha⟩
      simp [Phase.out, Phase.isIdle, Phase.wHeld, hne]
    · have hne : i.awvalid = false := Bool.eq_false_iff.2 fun ha => hc.aloneAw ⟨ha, hv⟩
      have hnw : i.wvalid = false := Bool.eq_false_iff.2 fun ha => hc.aloneW ⟨ha, hv⟩
      simp [Phase.out, Phase.isIdle, Phase.awHeld, Phase.wHeld, hne, hnw]
  toB := by
    refine Latency.within_next (by decide) h.toB (fun hs _ => ?_) (fun _ hb ha => ?_)
    · rw [apbSetup_out] at hs
      cases ph with
      | wapb q w en =>
        cases en with
        | false => exact ⟨rfl, by simp [Phase.step, leftResp]⟩
        | true => simp [launched] at hs
      | rapb => simp [launched] at hs
      | _ => cases hs
    · have hb : ph.b = none := Option.isNone_iff_eq_none.1 (Option.isSome_eq_false_iff.1 hb)
      exact ⟨writing_step ha hb, leftResp_step hc.prompt (Or.inl ha) hb (writing_quiet ha)⟩
  toR := by
    refine Latency.within_next (by decide) h.toR (fun hs _ => ?_) (fun _ hr ha => ?_)
    · rw [apbSetup_out] at hs
      cases ph with
      | rapb q en =>
        cases en with
        | false => exact ⟨rfl, by simp [Phase.step, leftResp]⟩
        | true => simp [launched] at hs
      | wapb => simp [launched] at hs
      | _ => cases hs
    · have hr : ph.r = none := Option.isNone_iff_eq_none.1 (Option.isSome_eq_false_iff.1 hr)
      exact ⟨returning_step ha hr, leftResp_step hc.prompt (Or.inr ha) (returning_quiet ha) hr⟩

theorem keeps_inTime : Keeps (bridge P) (engine P) Rel InTime Paced reset Watch.zero Watch.next
    (.idle none none) where
  sim := bridge_simulation P
  reset s := rel_reset ⟨s, rfl⟩
  zero := inTime_zero
  next _ _ _ hk ha := inTime_step hk ha

private theorem keeps_true : Keeps (bridge P) (engine P) Rel (fun _ _ => True) (fun _ _ => True) reset Watch.zero
    Watch.next (.idle none none) where
  sim := bridge_simulation P
  reset s := rel_reset ⟨s, rfl⟩
  zero := trivial
  next _ _ _ _ _ := trivial

end

/-- L1 to L3, then L4 and L5. -/
structure Deadlines (t : Timers 5) : Prop where
  aw : t.awStall.toNat ≤ 17
  w : t.wStall.toNat ≤ 17
  ar : t.arStall.toNat ≤ 17
  toB : t.apbWr.live = true → t.apbWr.cycles.toNat ≤ 5
  toR : t.apbRd.live = true → t.apbRd.cycles.toNat ≤ 5

/-- P1 to P5 hold at every edge of every run that starts in reset, and in those that meet the assumptions L1 to L5
do. -/
theorem wrapper_holds {h : Formal.State P (Simple.State P) Watch} {is : List (Bool × In P)}
    (hpast : h.pastValid = false) (hstarts : ∀ c ∈ (wrapper P).trace h is, c.2.Starts) :
    (∀ c ∈ (wrapper P).trace h is, c.2.checked = true → PortChecks c.2.past c.2.now) ∧
      ((∀ c ∈ (wrapper P).trace h is, c.2.live = true → Paced c.2.watch c.2.now) →
        ∀ c ∈ (wrapper P).trace h is, c.2.live = true → Deadlines c.2.watch.timers) := by
  constructor
  · intro c hc hchecked
    obtain ⟨⟨hv, hp⟩, hr⟩ : (c.2.pastValid = true ∧ c.2.pastResetn = true) ∧ c.2.resetn = true := by
      simpa [Edge.checked] using hchecked
    obtain ⟨ph, hseen⟩ := seen_of_trace keeps_true hpast (fun d hd => ⟨hstarts d hd, fun _ => trivial⟩) c hc
      (by simp [Edge.live, hv, hr])
    exact portChecks_of_seen hseen hp
  · intro hpaced c hc hlive
    obtain ⟨ph, hseen⟩ := seen_of_trace keeps_inTime hpast (fun d hd => ⟨hstarts d hd, hpaced d hd⟩) c hc hlive
    have hi := hseen.inv
    have hs := hi.stalls (hpaced c hc hlive).toPaired
    simp only [List.forall_mem_cons, List.not_mem_nil, false_implies, implies_true, and_true] at hs
    obtain ⟨haw, hw, har⟩ := hs
    exact ⟨by omega, by omega, by omega, fun hl => by have := (hi.toB hl).2; omega,
      fun hl => by have := (hi.toR hl).2; omega⟩

/-- A write with both halves at a time and partners as slow as they may be, during which the next one is offered. -/
theorem wrapper_holds_slow :
    let none := In.zero (contract 4)
    let b := (none.withAw ⟨5, 0x1000, 0, 0b011, 0b01, 0⟩).withW ⟨7, 0xff, true⟩
    let is := (false, none) :: ([b] ++ List.replicate 6 b ++ [{ b with pready0 := true }] ++ List.replicate 4 b ++
      [{ b with bready := true }, b, b]).map (true, ·)
    let tr := (wrapper _).trace (powerOn _) is
    (∀ c ∈ tr, c.2.checked = true → PortChecks c.2.past c.2.now) ∧
      (∀ c ∈ tr, c.2.live = true → Deadlines c.2.watch.timers) ∧
      (∃ c ∈ tr, c.2.watch.timers.awStall = 13) ∧ ∃ c ∈ tr, c.2.watch.timers.apbWr = ⟨5, true⟩ :=
  ⟨(wrapper_holds rfl (by decide +kernel)).1, (wrapper_holds rfl (by decide +kernel)).2 (by decide +kernel),
    by decide +kernel, by decide +kernel⟩

end AxiApb.SimpleProps
