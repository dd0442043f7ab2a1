import AxiApb.SimpleProps

/-!
# What the wrapper of the single-beat bridge assumes away

The wrapper counts the cycles in which one half of a write is there and the other is not, and assumes that they are less
than five.  Its flags are raised by any half that is accepted without the other one in the same cycle, also by the
second of the two, and then stay up until `BVALID`.  So the assumptions leave no run in which a write that is rejected
before its W beat goes on, which is where the bridge hangs, and none in which a write whose halves came one after the
other meets a wait state (`assumptions_exclude`).
-/

namespace AxiApb.SimpleProps

open Clocked Simple Formal

variable {P : Params}

/-! ### Overdue halves -/

/-- A wrapped bridge outside reset whose transaction machine is in phase `ph`. -/
structure On (h : Formal.State P (Simple.State P) Watch) (ph : Phase P) : Prop where
  valid : h.pastValid = true
  rel : Rel h.dut ph

/-- A wrapper takes a half of a write to be missing, and has done so for `n` cycles. -/
def Overdue (k : Watch) (n : Nat) : Prop :=
  (k.wNeedsAw = true ∧ k.orphanWWait.toNat = n) ∨ (k.awNeedsW = true ∧ k.orphanAwWait.toNat = n)

section
variable {h : Formal.State P (Simple.State P) Watch} {ph : Phase P} {i : Bool × In P} {k : Watch} {n : Nat}

theorem On.live (ho : On h ph) : ((wrapper P).out h i).live = i.1 := by
  simp [wrapper, Formal.wrapper, Edge.live, ho.valid]

theorem On.step (ho : On h ph) (hi : i.1 = true) : On ((wrapper P).step h i) (ph.step i.2) ∧
    ((wrapper P).step h i).watch = h.watch.next (i.2, ph.out i.2) := by
  obtain ⟨resetn, i⟩ := i
  obtain rfl : resetn = true := hi
  refine ⟨⟨rfl, rel_posedge ho.rel i⟩, ?_⟩
  show h.watch.next (i, out h.dut i) = _
  rw [out_rel ho.rel i]

theorem On.sees (ho : On h ph) (hi : i.1 = true) :
    ((wrapper P).out h i).now = (i.2, ph.out i.2) ∧ ((wrapper P).out h i).watch = h.watch := by
  obtain ⟨resetn, i⟩ := i
  obtain rfl : resetn = true := hi
  refine ⟨?_, rfl⟩
  show (i, out h.dut i) = _
  rw [out_rel ho.rel i]

theorem Overdue.lt (ho : Overdue k n) (hk : k.Paired) : n < 5 := by
  rcases ho with ⟨_, rfl⟩ | ⟨_, rfl⟩
  · exact hk.orphanW
  · exact hk.orphanAw

/-- Without a handshake and a response the wrapper goes on waiting. -/
theorem Overdue.next {c : Cycle P} (ho : Overdue k n) (hk : k.Paired) (haw : awTaken c = false)
    (hw : wAccepted c = false) (hb : c.2.b = none) : Overdue (k.next c) (n + 1) := by
  have hlt := ho.lt hk
  rcases ho with ⟨hf, rfl⟩ | ⟨hf, rfl⟩
  · exact Or.inl ⟨by simp [Watch.next, haw, hw, hb, hf], orphan_count hf hlt⟩
  · exact Or.inr ⟨by simp [Watch.next, haw, hw, hb, hf], orphan_count hf hlt⟩

/-- What waits for the fourth cycle is overdue after it. -/
theorem Overdue.ends {c : Cycle P} (ho : Overdue k 4) : ¬ (k.next c).Paired := by
  intro hk
  rcases ho with ⟨hf, hn⟩ | ⟨hf, hn⟩
  · have hc : (k.next c).orphanWWait.toNat = k.orphanWWait.toNat + 1 :=
      orphan_count hf (by show k.orphanWWait.toNat < 5; omega)
    have : (k.next c).orphanWWait.toNat < 5 := hk.orphanW
    omega
  · have hc : (k.next c).orphanAwWait.toNat = k.orphanAwWait.toNat + 1 :=
      orphan_count hf (by show k.orphanAwWait.toNat < 5; omega)
    have : (k.next c).orphanAwWait.toNat < 5 := hk.orphanAw
    omega

/-- A live edge that meets the assumptions. -/
def Going (e : Edge P Watch) : Prop := e.live = true ∧ Paced e.watch e.now

theorem On.going (ho : On h ph) (hg : Going ((wrapper P).out h i)) :
    i.1 = true ∧ Paced h.watch (i.2, ph.out i.2) := by
  have hi : i.1 = true := ho.live.symm.trans hg.1
  obtain ⟨hnow, hwatch⟩ := ho.sees hi
  have := hg.2
  rw [hnow, hwatch] at this
  exact ⟨hi, this⟩

/-- A rejected write without its W beat waits for it for ever, hence not for long. -/
private theorem err_length {q : Req P} {ks : List (Bool × In P)} (ho : On h (.err q none))
    (hf : h.watch.awNeedsW = true) (hn : h.watch.orphanAwWait.toNat ≤ 5)
    (hgo : ∀ d ∈ (wrapper P).trace h ks, Going d.2) : h.watch.orphanAwWait.toNat + ks.length ≤ 5 := by
  induction ks generalizing h with
  | nil => exact hn
  | cons i ks ih =>
    obtain ⟨hi, hp⟩ := ho.going (hgo _ (List.mem_cons_self ..))
    obtain ⟨ho', hk'⟩ := ho.step hi
    have hlt : h.watch.orphanAwWait.toNat < 5 := hp.orphanAw
    have hcount : ((wrapper P).step h i).watch.orphanAwWait.toNat = h.watch.orphanAwWait.toNat + 1 := by
      rw [hk']
      exact orphan_count hf hp.orphanAw
    have hflag : ((wrapper P).step h i).watch.awNeedsW = true := by
      rw [hk']
      exact (next_busy rfl).2.trans hf
    have := ih ho' hflag (by omega) (fun d hd => hgo d (List.mem_cons_of_mem _ hd))
    rw [List.length_cons]
    omega

/-- One cycle without a handshake and a response. -/
private theorem On.overdue {ph' : Phase P} (ho : On h ph) (hd : Overdue h.watch n)
    (hg : Going ((wrapper P).out h i)) (haw : ph.isIdle = true → ph.awHeld = true)
    (hw : ph.isIdle = true → ph.wHeld = true) (hb : ph.b = none) (hstep : ph.step i.2 = ph') :
    On ((wrapper P).step h i) ph' ∧ Overdue ((wrapper P).step h i).watch (n + 1) := by
  obtain ⟨hi, hp⟩ := ho.going hg
  obtain ⟨ho', hk'⟩ := ho.step hi
  have htaken : awTaken (i.2, ph.out i.2) = false := by
    rw [awTaken_out]
    cases hidle : ph.isIdle with
    | true => simp [haw hidle]
    | false => simp
  have haccepted : wAccepted (i.2, ph.out i.2) = false := by
    rw [wAccepted_out]
    cases hidle : ph.isIdle with
    | true => simp [hw hidle]
    | false => simp
  rw [hstep] at ho'
  rw [hk']
  exact ⟨ho', hd.next hp.toPaired htaken haccepted hb⟩

/-- A write whose halves came apart has its transfer in the first access cycle. -/
private theorem no_wait {q : Req P} {v : WBeat P} {i₀ i₁ i₂ i₃ i₄ i₅ : Bool × In P} {ks : List (Bool × In P)}
    (ho : On h (.idle (some q) (some v))) (hd : Overdue h.watch 0)
    (hgo : ∀ d ∈ (wrapper P).trace h (i₀ :: i₁ :: i₂ :: i₃ :: i₄ :: i₅ :: ks), Going d.2) :
    xferTaken ((wrapper P).out ((wrapper P).step ((wrapper P).step h i₀) i₁) i₂).now ≠ [] := by
  simp only [Machine.trace_cons, List.forall_mem_cons] at hgo
  obtain ⟨g₀, g₁, g₂, g₃, g₄, g₅, -⟩ := hgo
  -- the cycle between the halves and the transfer, and the setup phase
  obtain ⟨o₁, d₁⟩ : On _ (.wapb q v false) ∧ Overdue _ 1 := ho.overdue hd g₀ (fun _ => rfl) (fun _ => rfl) rfl rfl
  obtain ⟨o₂, d₂⟩ : On _ (.wapb q v true) ∧ Overdue _ 2 :=
    o₁.overdue d₁ g₁ (by intro h; cases h) (by intro h; cases h) rfl rfl
  rw [(o₂.sees (o₂.going g₂).1).1, xferTaken_out, Phase.done]
  cases hready : i₂.2.pready q.port with
  | true => simp
  | false =>
    -- a wait state: `BVALID` comes too late for the wrapper
    have hstay : (Phase.wapb q v true).step i₂.2 = .wapb q v true := by
      rw [Phase.step, hready]
      rfl
    obtain ⟨o₃, d₃⟩ := o₂.overdue d₂ g₂ (by intro h; cases h) (by intro h; cases h) rfl hstay
    obtain ⟨o₄, d₄⟩ := o₃.overdue d₃ g₃ (by intro h; cases h) (by intro h; cases h) rfl rfl
    obtain ⟨o₅, k₅⟩ := o₄.step (o₄.going g₄).1
    have hpaired := (o₅.going g₅).2.toPaired
    rw [k₅] at hpaired
    exact absurd hpaired d₄.ends

variable {j : In P}

private theorem idle_of_aw (haw : awTaken (j, ph.out j) = true) :
    (∃ w, ph = .idle none w) ∧ j.awvalid = true ∧ j.arvalid = false := by
  rw [awTaken_out] at haw
  simp only [Bool.and_eq_true, Bool.not_eq_true'] at haw
  obtain ⟨hv, hidle, hheld, har⟩ := haw
  cases ph with
  | idle aw w =>
    cases aw with
    | none => exact ⟨⟨w, rfl⟩, hv, har⟩
    | some q => cases hheld
  | _ => cases hidle

/-- The AW that comes after its W beat. -/
private theorem second_aw (hf : Flags k ph) (haw : awTaken (j, ph.out j) = true) (hsingle : j.awReq.Single)
    (hready : (ph.out j).wready = false) :
    ∃ q v, ph.step j = .idle (some q) (some v) ∧ Overdue (k.next (j, ph.out j)) 0 := by
  obtain ⟨⟨w, rfl⟩, hv, har⟩ := idle_of_aw haw
  cases w with
  | none => simp [Phase.out, Phase.isIdle, Phase.wHeld, har] at hready
  | some v =>
    have hw : wAccepted (j, (Phase.idle none (some v)).out j) = false := by simp [wAccepted_out, Phase.wHeld]
    refine ⟨j.awReq, v, ?_, Or.inr ⟨?_, ?_⟩⟩
    · rw [Phase.step, Phase.idleStep, hv, har]
      exact if_pos hsingle
    · rw [(next_idle none (some v) haw hw).2]
      rfl
    · show (count k.awNeedsW k.orphanAwWait).toNat = 0
      rw [hf.2]
      rfl

/-- The W beat that comes after its AW. -/
private theorem second_w (hf : Flags k ph) (hw : wAccepted (j, ph.out j) = true) (hready : (ph.out j).awready = false) :
    ∃ q v, ph.step j = .idle (some q) (some v) ∧ Overdue (k.next (j, ph.out j)) 0 := by
  have hw' := hw
  rw [wAccepted_out] at hw'
  simp only [Bool.and_eq_true, Bool.not_eq_true'] at hw'
  obtain ⟨hv, hidle, hheld, har⟩ := hw'
  cases ph with
  | idle aw w =>
    obtain rfl : w = none := Option.isNone_iff_eq_none.1 (Option.isSome_eq_false_iff.1 hheld)
    cases aw with
    | none => simp [Phase.out, Phase.isIdle, Phase.awHeld, har] at hready
    | some q =>
      have haw : awTaken (j, (Phase.idle (some q) none).out j) = false := by simp [awTaken_out, Phase.awHeld]
      refine ⟨q, j.wBeat, ?_, Or.inl ⟨?_, ?_⟩⟩
      · rw [Phase.step, Phase.takeW, hv, har]
        rfl
      · rw [(next_idle (some q) none haw hw).1]
        rfl
      · show (count k.wNeedsAw k.orphanWWait).toNat = 0
        rw [hf.1]
        rfl
  | _ => cases hidle

/-- The two cases from the state before the edge. -/
private theorem excluded {ks : List (Bool × In P)} (ho : On h ph) (hf : Flags h.watch ph)
    (hg : Going ((wrapper P).out h i)) (hgo : ∀ d ∈ (wrapper P).trace ((wrapper P).step h i) ks, Going d.2) :
    (awTaken ((wrapper P).out h i).now = true → ¬ ((wrapper P).out h i).now.1.awReq.Single →
      ((wrapper P).out h i).now.2.wready = true → ((wrapper P).out h i).now.1.wvalid = false →
      ((wrapper P).trace ((wrapper P).step h i) ks).length ≤ 5) ∧
    (awTaken ((wrapper P).out h i).now = true ∧ ((wrapper P).out h i).now.1.awReq.Single ∧
          ((wrapper P).out h i).now.2.wready = false ∨
        wAccepted ((wrapper P).out h i).now = true ∧ ((wrapper P).out h i).now.2.awready = false →
      6 ≤ ((wrapper P).trace ((wrapper P).step h i) ks).length →
      ∃ d ∈ ((wrapper P).trace ((wrapper P).step h i) ks)[2]?, xferTaken d.2.now ≠ []) := by
  obtain ⟨hi, hp⟩ := ho.going hg
  obtain ⟨ho', hk'⟩ := ho.step hi
  rw [(ho.sees hi).1, Machine.length_trace]
  constructor
  · intro haw hsingle hready hwv
    obtain ⟨⟨w, rfl⟩, hv, har⟩ := idle_of_aw haw
    have hwv : i.2.wvalid = false := hwv
    obtain rfl : w = none := by
      cases w with
      | none => rfl
      | some v => cases hready
    have herr : (Phase.idle none none).step i.2 = .err i.2.awReq none := by
      rw [Phase.step, Phase.idleStep, Phase.takeW, hv, har, hwv]
      exact if_neg hsingle
    have hf' : Flags ((wrapper P).step h i).watch (.err i.2.awReq none) := herr ▸ hk' ▸ flags_step hf i.2
    have hzero : ((wrapper P).step h i).watch.orphanAwWait = 0 := by
      rw [hk']
      show count h.watch.awNeedsW h.watch.orphanAwWait = 0
      rw [hf.2]
      rfl
    rw [herr] at ho'
    have := err_length ho' hf'.2 (by rw [hzero]; decide) hgo
    omega
  · intro hsecond hlen
    obtain ⟨q, v, hstep, hover⟩ : ∃ q v, ph.step i.2 = .idle (some q) (some v) ∧
        Overdue (h.watch.next (i.2, ph.out i.2)) 0 := by
      rcases hsecond with ⟨haw, hsingle, hready⟩ | ⟨hw, hready⟩
      · exact second_aw hf haw hsingle hready
      · exact second_w hf hw hready
    rw [hstep] at ho'
    rw [← hk'] at hover
    rcases ks with _ | ⟨i₀, _ | ⟨i₁, _ | ⟨i₂, _ | ⟨i₃, _ | ⟨i₄, _ | ⟨i₅, ks⟩⟩⟩⟩⟩⟩
    iterate 6 · simp at hlen
    exact ⟨_, rfl, no_wait ho' hover hgo⟩

end

/-- In a run that meets the assumptions, and of which `c` and the edges `post` after it are not in reset: a write request
that is rejected before its W beat is followed by five edges at most; a write whose halves are accepted one after the
other, `c` being the later one, has no wait state if six edges follow. -/
theorem assumptions_exclude {h : Formal.State P (Simple.State P) Watch} {is : List (Bool × In P)}
    {pre post : List ((Bool × In P) × Edge P Watch)} {c : (Bool × In P) × Edge P Watch} (hpast : h.pastValid = false)
    (hstarts : ∀ d ∈ (wrapper P).trace h is, d.2.Starts)
    (hpaced : ∀ d ∈ (wrapper P).trace h is, d.2.live = true → Paced d.2.watch d.2.now)
    (htrace : (wrapper P).trace h is = pre ++ c :: post) (hlive : ∀ d ∈ c :: post, d.2.live = true) :
    (awTaken c.2.now = true → ¬ c.2.now.1.awReq.Single → c.2.now.2.wready = true → c.2.now.1.wvalid = false →
      post.length ≤ 5) ∧
    (awTaken c.2.now = true ∧ c.2.now.1.awReq.Single ∧ c.2.now.2.wready = false ∨
        wAccepted c.2.now = true ∧ c.2.now.2.awready = false →
      6 ≤ post.length → ∃ d ∈ post[2]?, xferTaken d.2.now ≠ []) := by
  obtain ⟨js, i, ks, his, hpre, rfl, hpost⟩ := (wrapper P).trace_split htrace
  have hrun : ∀ d ∈ (wrapper P).trace h js, d.2.Meets Paced := fun d hd =>
    have hmem : d ∈ (wrapper P).trace h is := by
      rw [htrace, ← hpre]
      exact List.mem_append_left _ hd
    ⟨hstarts d hmem, hpaced d hmem⟩
  have hgo : ∀ d ∈ (i, (wrapper P).out ((wrapper P).run h js) i) :: post, Going d.2 := fun d hd =>
    ⟨hlive d hd, hpaced d (htrace ▸ List.mem_append_right _ hd) (hlive d hd)⟩
  have hv : ((wrapper P).run h js).pastValid = true := (Bool.and_eq_true_iff.1 (hgo _ (List.mem_cons_self ..)).1).1
  obtain ⟨ph, ht⟩ := tracked_run keeps_inTime hpast hrun hv
  rw [← hpost] at hgo ⊢
  exact excluded ⟨hv, ht.rel⟩ ht.inv.flags (hgo _ (List.mem_cons_self ..)) (fun d hd => hgo d (List.mem_cons_of_mem _ hd))

/-- A request for two beats whose W beats do not come, and a write whose W beat comes after its AW. -/
theorem assumptions_exclude_split :
    let r := In.ready (contract 4)
    let rejected := (wrapper _).trace (powerOn _)
      ((false, r) :: (true, r.withAw ⟨5, 0x1000, 1, 0b011, 0b01, 0⟩) :: List.replicate 5 (true, r))
    let split := (wrapper _).trace (powerOn _)
      ((false, r) :: (true, r.withAw ⟨5, 0x1000, 0, 0b011, 0b01, 0⟩) :: (true, r.withW ⟨7, 0xff, true⟩) ::
        List.replicate 7 (true, r))
    (rejected.drop 2).length ≤ 5 ∧ ∃ d ∈ (split.drop 3)[2]?, xferTaken d.2.now ≠ [] := by
  intro r rejected split
  have hr : rejected = rejected.take 1 ++ rejected[1] :: rejected.drop 2 := rfl
  have hs : split = split.take 2 ++ split[2] :: split.drop 3 := rfl
  exact ⟨(assumptions_exclude rfl (by decide +kernel) (by decide +kernel) hr (by decide +kernel)).1 (by decide +kernel)
      (by decide +kernel) (by decide +kernel) (by decide +kernel),
    (assumptions_exclude rfl (by decide +kernel) (by decide +kernel) hs (by decide +kernel)).2
      (Or.inr (by decide +kernel)) (by decide +kernel)⟩

end AxiApb.SimpleProps
