import AxiApb.ApbProtocol
import AxiApb.BurstReject

/-!
# What always holds of the burst bridge

The APB ports keep their protocol, whatever the inputs are (`apb_handshake`), and no transfer leaves the window of its
request (`routing`).
-/

namespace AxiApb.Burst

open Clocked

variable {P : Params}

/-! ### The APB ports -/

section
variable {s : State P} {ph : Phase P} {i j : In P}

/-- Each port of the transaction machine keeps the protocol. -/
theorem apb_step (ph : Phase P) (i : In P) (x : Bool) : ApbMove (ph.apb x) (i.pready x) ((ph.step i).apb x) := by
  cases ph with
  | idle =>
    simp only [Phase.step, Phase.startRead]
    repeat' split
    all_goals exact .rest _
  | wdata q ws es =>
    rw [Phase.step, Phase.takeW]
    split
    · split
      · exact .launched _ x _
      · split <;> exact .rest _
    · exact .rest _
  | wapb q ws w es en =>
    cases en with
    | false => exact .enabled _ x _
    | true =>
      rw [Phase.step, Phase.wDone]
      cases hr : i.pready q.port with
      | true =>
        rw [if_pos rfl]
        split <;> exact .completed _ x hr
      | false => exact .waited _ x hr
  | wresp q ws es v =>
    cases v with
    | false => exact .rest _
    | true => rw [Phase.step]; split <;> exact .rest _
  | rfetch q ds => exact .launched _ x _
  | rapb q ds en =>
    cases en with
    | false => exact .enabled _ x _
    | true =>
      rw [Phase.step]
      cases hr : i.pready q.port with
      | true => exact .completed _ x hr
      | false => exact .waited _ x hr
  | rbuf _ _ _ v | rerr _ _ v =>
    cases v with
    | false => exact .rest _
    | true =>
      rw [Phase.step]
      repeat' split
      all_goals exact .rest _

/-- A transfer leaves the other port idle. -/
theorem exists_quiet (ph : Phase P) : ∃ x, ph.apb x = .quiet := by
  cases ph with
  | wapb q ws w es en => exact ⟨!q.port, if_neg (by cases q.port <;> decide)⟩
  | rapb q ds en => exact ⟨!q.port, if_neg (by cases q.port <;> decide)⟩
  | idle | wdata | wresp | rfetch | rbuf | rerr => exact ⟨false, rfl⟩

theorem apbEdge_rel (hr : Rel s ph) (i : In P) : ApbEdge s.port (posedge s i).port i :=
  ApbEdge.of_moves hr.apb (rel_posedge hr i).apb (apb_step ph i) (exists_quiet ph)

/-- In the access phase `axi_sel_apb1` is the port that is enabled, and `axi_is_write` the direction of its
transfer. -/
theorem access_rel (hr : Rel s ph) (ha : s.apbState = .access) :
    ∃ k, (s.port s.axiSelApb1).view = ⟨true, true, some k⟩ ∧ k.pwrite = s.axiIsWrite := by
  have hst := hr.apbState
  have ht := hr.txn
  rw [ha] at hst
  cases ph with
  | wapb q ws w es en =>
    cases en with
    | false => cases hst
    | true =>
      refine ⟨q.writeCtrl ws.length w, ?_, ht.isWrite.symm⟩
      rw [hr.apb, ht.sel]
      exact if_pos rfl
  | rapb q ds en =>
    cases en with
    | false => cases hst
    | true =>
      refine ⟨q.readCtrl ds.length, ?_, ht.1.isWrite.symm⟩
      rw [hr.apb, ht.1.sel]
      exact if_pos rfl
  | idle | wdata | wresp | rfetch | rbuf | rerr => cases hst

/-- The end of an access phase is the only place where the APB inputs are read, and only those of the enabled port
are. -/
theorem posedge_congr (hr : Rel s ph) (hax : SameAxi i j) (hap : SameApb (fun x => (s.port x).view) i j) :
    posedge s i = posedge s j := by
  have hacc : s.apbState = .access → preadySel s i = preadySel s j ∧
      (preadySel s i = true → pslverrSel s i = pslverrSel s j ∧
        (s.axiIsWrite = false → prdataSel s i = prdataSel s j)) := by
    intro ha
    obtain ⟨k, hk, hw⟩ := access_rel hr ha
    obtain ⟨h1, h2⟩ := hap s.axiSelApb1 (congrArg PortView.psel hk) (congrArg PortView.penable hk)
    refine ⟨h1, fun hp => ?_⟩
    obtain ⟨h3, h4⟩ := h2 hp
    exact ⟨h3, fun hf => h4 k (congrArg PortView.ctrl hk) (hw.trans hf)⟩
  have htxn : txnApb s i = txnApb s j := by
    funext t
    unfold txnApb
    by_cases ha : s.apbState = .access
    · obtain ⟨h1, h2⟩ := hacc ha
      rw [← h1]
      cases hp : preadySel s i with
      | false =>
        rw [Bool.and_false]
        rfl
      | true =>
        obtain ⟨h3, h4⟩ := h2 hp
        rw [h3]
        cases hw : s.axiIsWrite with
        | true => rfl
        | false => rw [h4 hw]
    · have hne : (s.apbState == ApbState.access) = false := beq_eq_false_iff_ne.2 ha
      rw [hne]
      rfl
  have hapb : apbBlock s i = apbBlock s j := by
    rw [hax]
    cases ha : s.apbState with
    | access =>
      have h1 := (hacc ha).1
      rw [hax] at h1
      simp only [apbBlock, ha, h1]
    | idle =>
      unfold apbBlock
      rw [ha]
      rfl
    | setup | unused => simp only [apbBlock, ha]
  have hblk : txnBlock s i = txnBlock s j := by
    unfold txnBlock
    rw [htxn, hax]
    rfl
  have hb : bBlock s i = bBlock s j := by rw [hax]; rfl
  have hrb : rBlock s i = rBlock s j := by rw [hax]; rfl
  rw [posedge, posedge, hblk, hapb, hb, hrb]

/-- In every reachable state and at every edge both ports keep the protocol, and `PREADY` has no effect outside the
access phase of its port. -/
theorem apb_handshake (hs : Reachable s) (i : In P) :
    ApbEdge s.port (posedge s i).port i ∧
      ∀ ready, (∀ x, (s.port x).penable = true → ready x = i.pready x) →
        posedge s (i.withPready ready) = posedge s i := by
  obtain ⟨ph, hr⟩ := hs.rel
  refine ⟨apbEdge_rel hr i, fun ready hready => ?_⟩
  refine posedge_congr hr rfl (fun x _ he => ?_)
  have hp : (i.withPready ready).pready x = ready x := by cases x <;> rfl
  refine ⟨hp.trans (hready x he), fun _ => ⟨?_, fun _ _ _ => ?_⟩⟩
  · cases x <;> rfl
  · cases x <;> rfl

/-- A write of two beats whose first beat is in its access phase, with a slave that waits. -/
theorem apb_handshake_write :
    let r := In.ready (contract 4)
    let is := [r.withAw ⟨5, 0x80001000, 1, 0b011, 0b01, 0b010⟩, r.withW ⟨7, 0xff, false⟩, r]
    let s := (bridge (contract 4)).run (State.zero _) is
    let i := { r with pready1 := false }
    ApbEdge s.port (posedge s i).port i ∧
      ∀ ready, (∀ x, (s.port x).penable = true → ready x = i.pready x) →
        posedge s (i.withPready ready) = posedge s i :=
  apb_handshake (Reachable.run (reachable_zero _) _) _

end

/-! ### Routing -/

/-- The beat in transfer: its request and its number. -/
def Phase.beat : Phase P → Option (Req P × Nat)
  | wapb q ws _ _ _ => some (q, ws.length)
  | rapb q ds _ => some (q, ds.length)
  | _ => none

section
variable {s : State P} {ph : Phase P} {q : Req P} {tr : List (Cycle P)} {n : Nat} {x : Bool}

/-- A selected port carries the address of the beat in transfer. -/
theorem paddr_rel (hr : Rel s ph) (hsel : (s.port x).psel = true) :
    ∃ q n, ph.beat = some (q, n) ∧ x = q.port ∧ (s.port x).paddr = q.beatAddr n := by
  have hv := hr.apb x
  cases ph with
  | wapb q ws w es en =>
    obtain ⟨hx, hk⟩ := Port.of_view_drive_if hv hsel
    exact ⟨q, ws.length, rfl, hx, congrArg Ctrl.paddr hk⟩
  | rapb q ds en =>
    obtain ⟨hx, hk⟩ := Port.of_view_drive_if hv hsel
    exact ⟨q, ds.length, rfl, hx, congrArg Ctrl.paddr hk⟩
  | idle | wdata | wresp | rfetch | rbuf | rerr =>
    rw [(Port.of_view_quiet hv).1] at hsel
    cases hsel

theorem beat_legal (hok : ph.Ok) (h : ph.beat = some (q, n)) : q.Legal ∧ n ≤ q.len.toNat := by
  cases ph with
  | wapb q' ws w es en =>
    cases h
    exact ⟨hok.1, (Req.wEnded_eq_false.1 hok.2.1).2⟩
  | rapb q' ds en =>
    cases h
    exact hok
  | idle | wdata | wresp | rfetch | rbuf | rerr => cases h

/-- Beat `n` is in transfer after `n` transfers. -/
theorem beat_of_write {q' : Req P} (hok : ph.Ok) (ht : WTrack q tr ph) (h : ph.beat = some (q', n)) :
    q' = q ∧ n = (xfers tr).length := by
  cases ph with
  | wapb q' ws w es en =>
    cases h
    obtain ⟨hq, hseen⟩ := ht
    have hlen : (xfers tr).length = es.length := by rw [← hseen.errs, List.length_map]
    exact ⟨hq, by rw [hlen, hok.2.2]⟩
  | rapb => exact ht.elim
  | idle | wdata | wresp | rfetch | rbuf | rerr => cases h

theorem beat_of_read {q' : Req P} (ht : RTrack q tr ph) (h : ph.beat = some (q', n)) :
    q' = q ∧ n = (xfers tr).length := by
  cases ph with
  | rapb q' ds en =>
    cases h
    obtain ⟨hq, hseen⟩ := ht
    exact ⟨hq, by rw [hseen.x, Req.reads, List.length_mapIdx]⟩
  | wapb => exact ht.elim
  | idle | wdata | wresp | rfetch | rbuf | rerr => cases h

end

section
variable {idWidth : Nat}

/-- On the trace `tr` from the handshake of `q` to the state `s`: a selected port is that of the request and carries
the address of the next beat, which is `start + 8 * i` without a carry out of 32 bits. -/
structure InWindow (q : Req (contract idWidth)) (tr : List (Cycle (contract idWidth)))
    (s : State (contract idWidth)) : Prop where
  port : ∀ x, (s.port x).psel = true → x = q.addr.getLsbD 31
  beat_le : ∀ x, (s.port x).psel = true → (xfers tr).length ≤ q.len.toNat
  incr : q.burst = burstIncr → ∀ x, (s.port x).psel = true →
    (s.port x).paddr.toNat = q.addr.toNat + 8 * (xfers tr).length
  fixed : q.burst = burstFixed → ∀ x, (s.port x).psel = true → (s.port x).paddr = q.addr

private theorem inWindow_of {s : State (contract idWidth)} {q : Req (contract idWidth)}
    {tr : List (Cycle (contract idWidth))}
    (h : ∀ x, (s.port x).psel = true → q.Supported ∧ (xfers tr).length ≤ q.len.toNat ∧ x = q.port ∧
      (s.port x).paddr = q.address (xfers tr).length) : InWindow q tr s where
  port x hx := (h x hx).2.2.1
  beat_le x hx := (h x hx).2.1
  incr hb x hx := by
    obtain ⟨hq, hle, -, ha⟩ := h x hx
    rw [ha, hq.no_wrap hb hle]
  fixed hb x hx := by
    rw [(h x hx).2.2.2, Req.address, hb, if_neg (by decide)]

/-- Whatever is requested, a selected port has its own window in bit 31 of the address, and each beat of a burst has
the address that its number says. -/
theorem routing {s : State (contract idWidth)} (hs : Reachable s) :
    (∀ x, (s.port x).psel = true → (s.port x).paddr.getLsbD 31 = x) ∧
      (∀ a is, awHandshake s a = true → (∀ c ∈ (bridge _).trace (posedge s a) is, reqTaken c = false) →
        InWindow a.awReq ((bridge _).trace s (a :: is)) ((bridge _).run s (a :: is))) ∧
      ∀ a is, arHandshake s a = true → (∀ c ∈ (bridge _).trace (posedge s a) is, reqTaken c = false) →
        InWindow a.arReq ((bridge _).trace s (a :: is)) ((bridge _).run s (a :: is)) := by
  refine ⟨fun x hsel => ?_, fun a is haw hnext => ?_, fun a is har hnext => ?_⟩
  · obtain ⟨ph, hr⟩ := hs.rel
    obtain ⟨q, n, hbeat, hx, ha⟩ := paddr_rel hr hsel
    obtain ⟨hq, hle⟩ := beat_legal hr.ok hbeat
    have hsup := Req.legal_iff_supported.1 hq
    rw [ha, Req.beatAddr_contract hsup.1, hx]
    exact hsup.window hle
  · obtain ⟨ph, hr, ht⟩ := write_track hs haw hnext
    refine inWindow_of fun x hsel => ?_
    obtain ⟨q, n, hbeat, hx, ha⟩ := paddr_rel hr hsel
    obtain ⟨rfl, rfl⟩ := beat_of_write hr.ok ht hbeat
    obtain ⟨hq, hle⟩ := beat_legal hr.ok hbeat
    have hsup := Req.legal_iff_supported.1 hq
    exact ⟨hsup, hle, hx, by rw [ha, Req.beatAddr_contract hsup.1]⟩
  · obtain ⟨ph, hr, ht⟩ := read_track hs har hnext
    refine inWindow_of fun x hsel => ?_
    obtain ⟨q, n, hbeat, hx, ha⟩ := paddr_rel hr hsel
    obtain ⟨rfl, rfl⟩ := beat_of_read ht hbeat
    obtain ⟨hq, hle⟩ := beat_legal hr.ok hbeat
    have hsup := Req.legal_iff_supported.1 hq
    exact ⟨hsup, hle, hx, by rw [ha, Req.beatAddr_contract hsup.1]⟩

/-- A write of two beats up to the last word of the address space, with its second beat in transfer. -/
theorem routing_top :
    let r := In.ready (contract 4)
    let a := r.withAw ⟨5, 0xfffffff0, 1, 0b011, 0b01, 0b010⟩
    let is := [r.withW ⟨7, 0xff, false⟩, r, r, r.withW ⟨9, 0xff, true⟩]
    InWindow a.awReq ((bridge _).trace (State.zero _) (a :: is)) ((bridge _).run (State.zero _) (a :: is)) :=
  (routing (reachable_zero _)).2.1 _ _ (by decide) (by decide +kernel)

end

end AxiApb.Burst
