import AxiApb.Serial
import AxiApb.BurstTrace
import AxiApb.SimplePairing

/-!
# The two bridges agree on single beats

A master that issues legal single-beat transactions one after the other, with whatever timing, sees the same
transfers and the same responses from both bridges (`single_beats_agree`).  Each bridge is shown to be a serial server
of the transactions: its phase and the progress of the master say what is left to do and which response is owed.
-/

namespace AxiApb

open Clocked

variable {idWidth : Nat}

/-! ### Transactions -/

/-- A request for one full-width beat, `FIXED` or `INCR`. -/
structure OneBeat (idWidth : Nat) where
  req : Req (contract idWidth)
  len : req.len = 0#8
  size : req.size = 0b011#3
  burst : req.burst = burstFixed ∨ req.burst = burstIncr

/-- A write with its data and strobes (`WLAST` is 1), or a read. -/
inductive Single (idWidth : Nat)
  | write (q : OneBeat idWidth) (data : Data (contract idWidth)) (strb : Strb (contract idWidth))
  | read (q : OneBeat idWidth)

/-- A response on B or on R. -/
abbrev Resp (P : Params) := BBeat P ⊕ RBeat P

/-- The responses accepted in a cycle, and in a trace. -/
def respsTaken {P : Params} (c : Cycle P) : List (Resp P) := (bTaken c).map .inl ++ (rTaken c).map .inr

def resps {P : Params} (tr : List (Cycle P)) : List (Resp P) := tr.flatMap respsTaken

namespace Single

/-- The APB transfer of a transaction: its port and its control. -/
def drive : Single idWidth → Bool × Ctrl (contract idWidth)
  | write q data strb => (q.req.addr.getLsbD 31, ⟨q.req.addr, q.req.prot, true, some (data, strb)⟩)
  | read q => (q.req.addr.getLsbD 31, ⟨q.req.addr, q.req.prot, false, none⟩)

/-- The response to a transaction whose transfer was `x`. -/
def respond : Single idWidth → Xfer (contract idWidth) → Resp (contract idWidth)
  | write q _ _, x => .inl ⟨q.req.id, if x.pslverr then respSlverr else respOkay⟩
  | read q, x => .inr ⟨q.req.id, x.prdata, if x.pslverr then respSlverr else respOkay, true⟩

end Single

/-- Port and control of a transfer. -/
def Xfer.drive {P : Params} (x : Xfer P) : Bool × Ctrl P := (x.port, x.ctrl)

/-! ### The master -/

/-- The transactions that have no response yet, the first of which is in progress: its AW or AR was accepted (`addr`),
its W beat was (`w`). -/
structure Master (idWidth : Nat) where
  todo : List (Single idWidth)
  addr : Bool
  w : Bool

namespace Master

/-- The master offers only what is missing of the transaction in progress; when it does so is left open. -/
def Offers (m : Master idWidth) (i : In (contract idWidth)) : Prop :=
  match m.todo with
  | [] => i.awvalid = false ∧ i.wvalid = false ∧ i.arvalid = false
  | .write q data strb :: _ =>
    i.arvalid = false ∧ (i.awvalid = true → m.addr = false ∧ i.awReq = q.req) ∧
      (i.wvalid = true → m.w = false ∧ i.wBeat = ⟨data, strb, true⟩)
  | .read q :: _ => i.awvalid = false ∧ i.wvalid = false ∧ (i.arvalid = true → m.addr = false ∧ i.arReq = q.req)

instance (m : Master idWidth) (i : In (contract idWidth)) : Decidable (m.Offers i) :=
  match m with
  | ⟨[], _, _⟩ => inferInstanceAs (Decidable (_ ∧ _ ∧ _))
  | ⟨.write .. :: _, _, _⟩ => inferInstanceAs (Decidable (_ ∧ (_ → _ ∧ _) ∧ (_ → _ ∧ _)))
  | ⟨.read _ :: _, _, _⟩ => inferInstanceAs (Decidable (_ ∧ _ ∧ (_ → _ ∧ _)))

/-- The next transaction is started after the response. -/
def advance (m : Master idWidth) (c : Cycle (contract idWidth)) : Master idWidth :=
  match m.todo with
  | [] => m
  | .write .. :: l =>
    if (bTaken c).isEmpty then { m with addr := m.addr || awTaken c, w := m.w || !(wTaken c).isEmpty }
    else ⟨l, false, false⟩
  | .read _ :: l => if (rTaken c).isEmpty then { m with addr := m.addr || arTaken c } else ⟨l, false, false⟩

/-- The master plays its part in a trace, at the end of which every transaction has been answered. -/
def Plays : Master idWidth → List (Cycle (contract idWidth)) → Prop
  | m, [] => m.todo = []
  | m, c :: tr => m.Offers c.1 ∧ Plays (m.advance c) tr

instance : ∀ (m : Master idWidth) (tr : List (Cycle (contract idWidth))), Decidable (m.Plays tr)
  | ⟨[], _, _⟩, [] => isTrue rfl
  | ⟨_ :: _, _, _⟩, [] => isFalse (List.cons_ne_nil _ _)
  | m, c :: tr =>
    have := instDecidablePlays (m.advance c) tr
    inferInstanceAs (Decidable (_ ∧ _))

end Master

/-- The trace of a master that issues the transactions `ts` one after the other. -/
def Issues (ts : List (Single idWidth)) (tr : List (Cycle (contract idWidth))) : Prop :=
  Master.Plays ⟨ts, false, false⟩ tr

instance (ts : List (Single idWidth)) (tr : List (Cycle (contract idWidth))) : Decidable (Issues ts tr) :=
  inferInstanceAs (Decidable (Master.Plays _ _))

/-! ### Serial servers -/

abbrev Server (idWidth : Nat) := Serial.Server (Single idWidth) (Resp (contract idWidth))

/-- One cycle of a server of transactions, and some cycles. -/
abbrev Serves (v : Server idWidth) (c : Cycle (contract idWidth)) (v' : Server idWidth) : Prop :=
  Serial.Step Single.drive Xfer.drive Single.respond v (xferTaken c) (respsTaken c) v'

abbrev ServesAll (v : Server idWidth) (tr : List (Cycle (contract idWidth))) (v' : Server idWidth) : Prop :=
  Serial.Run Single.drive Xfer.drive Single.respond v (xfers tr) (resps tr) v'

section
variable {c : Cycle (contract idWidth)} {l : List (Single idWidth)}

private theorem serves_wait (v : Server idWidth) (hx : xferTaken c = []) (hb : bTaken c = []) (hr : rTaken c = []) :
    Serves v c v := by
  unfold Serves
  rw [hx, respsTaken, hb, hr]
  exact .wait v

private theorem serves_act {t : Single idWidth} {x : Xfer (contract idWidth)} (hx : xferTaken c = [x])
    (hd : x.drive = t.drive) (hb : bTaken c = []) (hr : rTaken c = []) :
    Serves ⟨t :: l, none⟩ c ⟨l, some (t.respond x)⟩ := by
  unfold Serves
  rw [hx, respsTaken, hb, hr]
  exact .act t l x hd

private theorem serves_b {b : BBeat (contract idWidth)} (hx : xferTaken c = []) (hb : bTaken c = [b])
    (hr : rTaken c = []) : Serves ⟨l, some (.inl b)⟩ c ⟨l, none⟩ := by
  unfold Serves
  rw [hx, respsTaken, hb, hr]
  exact .answer l _

private theorem serves_r {r : RBeat (contract idWidth)} (hx : xferTaken c = []) (hb : bTaken c = [])
    (hr : rTaken c = [r]) : Serves ⟨l, some (.inr r)⟩ c ⟨l, none⟩ := by
  unfold Serves
  rw [hx, respsTaken, hb, hr]
  exact .answer l _

end

/-- A machine whose cycles are those of a server is one in every trace of the master. -/
private theorem serves_of_step {σ : Type*} {M : Machine (In (contract idWidth)) (Out (contract idWidth)) σ}
    {R : Master idWidth → σ → Server idWidth → Prop}
    (hstep : ∀ m s v i, R m s v → m.Offers i → ∃ v', Serves v (i, M.out s i) v' ∧
      R (m.advance (i, M.out s i)) (M.step s i) v')
    (hend : ∀ m s v, R m s v → m.todo = [] → v.left = [] ∧ v.owed = none)
    {m : Master idWidth} {s : σ} {v : Server idWidth} {is : List (In (contract idWidth))} (h : R m s v)
    (hplays : m.Plays (M.trace s is)) : ∃ v', ServesAll v (M.trace s is) v' ∧ v'.left = [] ∧ v'.owed = none := by
  induction is generalizing m s v with
  | nil => exact ⟨v, .nil v, hend m s v h hplays⟩
  | cons i is ih =>
    obtain ⟨hoffers, hrest⟩ := hplays
    obtain ⟨v', hserves, hR⟩ := hstep m s v i h hoffers
    obtain ⟨v'', hall, hdone⟩ := ih hR hrest
    refine ⟨v'', ?_, hdone⟩
    rw [Machine.trace_cons]
    exact .cons hserves hall

/-! ### Progress of the master -/

section
variable {c : Cycle (contract idWidth)} {q : OneBeat idWidth} {data : Data (contract idWidth)}
  {strb : Strb (contract idWidth)} {l : List (Single idWidth)} {a w : Bool}

private theorem advance_write (hb : bTaken c = []) : Master.advance ⟨.write q data strb :: l, a, w⟩ c =
    ⟨.write q data strb :: l, a || awTaken c, w || !(wTaken c).isEmpty⟩ := by
  rw [Master.advance, hb]
  rfl

private theorem advance_written {b : BBeat (contract idWidth)} (hb : bTaken c = [b]) :
    Master.advance ⟨.write q data strb :: l, a, w⟩ c = ⟨l, false, false⟩ := by
  rw [Master.advance, hb]
  rfl

private theorem advance_read (hr : rTaken c = []) :
    Master.advance ⟨.read q :: l, a, w⟩ c = ⟨.read q :: l, a || arTaken c, w⟩ := by
  rw [Master.advance, hr]
  rfl

private theorem advance_returned {r : RBeat (contract idWidth)} (hr : rTaken c = [r]) :
    Master.advance ⟨.read q :: l, a, w⟩ c = ⟨l, false, false⟩ := by
  rw [Master.advance, hr]
  rfl

/-- Nothing is accepted. -/
private theorem advance_quiet {m : Master idWidth} (haw : awTaken c = false) (har : arTaken c = false)
    (hw : wTaken c = []) (hb : bTaken c = []) (hr : rTaken c = []) : m.advance c = m := by
  obtain ⟨todo, a, w⟩ := m
  cases todo with
  | nil => rfl
  | cons t l =>
    cases t with
    | write q data strb => rw [advance_write hb, haw, hw, Bool.or_false, List.isEmpty_nil, Bool.not_true, Bool.or_false]
    | read q => rw [advance_read hr, har, Bool.or_false]

end

/-! ### The burst bridge -/

theorem OneBeat.legal (q : OneBeat idWidth) : q.req.Legal := by
  refine ⟨q.size, q.burst, ?_⟩
  rw [q.len]
  exact congrArg (BitVec.getLsbD · 31) (Req.beatAddr_zero q.req)

namespace Burst

/-- The progress of the master, the phase of the bridge, and the server that the bridge is. -/
inductive Matches : Master idWidth → Phase (contract idWidth) → Server idWidth → Prop
  | idle (l : List (Single idWidth)) : Matches ⟨l, false, false⟩ .idle ⟨l, none⟩
  | wdata (q : OneBeat idWidth) (data strb) (l : List (Single idWidth)) :
    Matches ⟨.write q data strb :: l, true, false⟩ (.wdata q.req [] []) ⟨.write q data strb :: l, none⟩
  | wapb (q : OneBeat idWidth) (data strb) (l : List (Single idWidth)) (en : Bool) :
    Matches ⟨.write q data strb :: l, true, true⟩ (.wapb q.req [] ⟨data, strb, true⟩ [] en)
      ⟨.write q data strb :: l, none⟩
  | wresp (q : OneBeat idWidth) (data strb) (l : List (Single idWidth)) (e v : Bool) :
    Matches ⟨.write q data strb :: l, true, true⟩ (.wresp q.req [⟨data, strb, true⟩] [e] v)
      ⟨l, some (.inl ⟨q.req.id, if e then respSlverr else respOkay⟩)⟩
  | rfetch (q : OneBeat idWidth) (l : List (Single idWidth)) :
    Matches ⟨.read q :: l, true, false⟩ (.rfetch q.req []) ⟨.read q :: l, none⟩
  | rapb (q : OneBeat idWidth) (l : List (Single idWidth)) (en : Bool) :
    Matches ⟨.read q :: l, true, false⟩ (.rapb q.req [] en) ⟨.read q :: l, none⟩
  | rbuf (q : OneBeat idWidth) (l : List (Single idWidth)) (d : ReadDone (contract idWidth)) (v : Bool) :
    Matches ⟨.read q :: l, true, false⟩ (.rbuf q.req [] d v)
      ⟨l, some (.inr ⟨q.req.id, d.prdata, if d.pslverr then respSlverr else respOkay, true⟩)⟩

section
variable {m : Master idWidth} {ph : Phase (contract idWidth)} {v : Server idWidth} {i : In (contract idWidth)}

/-- Nothing happens on APB, B and R. -/
private theorem serves_none (v : Server idWidth) (hx : ph.done i = []) (hb : ph.b = none) (hr : ph.r = none) :
    Serves v (i, ph.out i) v :=
  serves_wait v ((xferTaken_out ph i).trans hx) (bTaken_none hb) (rTaken_none hr)

/-- In the idle phase the next transaction may start. -/
private theorem matches_idle (l : List (Single idWidth)) (ho : Master.Offers ⟨l, false, false⟩ i) :
    ∃ v', Serves ⟨l, none⟩ (i, (Phase.idle : Phase (contract idWidth)).out i) v' ∧
      Matches (Master.advance ⟨l, false, false⟩ (i, (Phase.idle : Phase (contract idWidth)).out i))
        ((Phase.idle : Phase (contract idWidth)).step i) v' := by
  refine ⟨_, serves_none _ rfl rfl rfl, ?_⟩
  cases l with
  | nil =>
    obtain ⟨haw, -, har⟩ := ho
    rw [Phase.step, haw, har]
    exact .idle []
  | cons t l =>
    cases t with
    | write q data strb =>
      obtain ⟨har, haw, -⟩ := ho
      rw [advance_write (bTaken_none rfl), wTaken_idle, Phase.step, har]
      cases hv : i.awvalid with
      | true =>
        have htaken : awTaken (i, (Phase.idle : Phase (contract idWidth)).out i) = true := by
          simp [awTaken, Phase.out, Phase.isIdle, hv, har]
        rw [htaken, (haw hv).2]
        exact .wdata q data strb l
      | false =>
        have htaken : awTaken (i, (Phase.idle : Phase (contract idWidth)).out i) = false := by simp [awTaken, hv]
        rw [htaken]
        exact .idle _
    | read q =>
      obtain ⟨haw, -, har⟩ := ho
      rw [advance_read (rTaken_none rfl), Phase.step, haw]
      cases hv : i.arvalid with
      | true =>
        have htaken : arTaken (i, (Phase.idle : Phase (contract idWidth)).out i) = true := by
          simp [arTaken, Phase.out, Phase.isIdle, hv, haw]
        have hstart : Phase.startRead q.req = .rfetch q.req [] := if_pos q.legal
        rw [htaken, (har hv).2, hstart]
        exact .rfetch q l
      | false =>
        have htaken : arTaken (i, (Phase.idle : Phase (contract idWidth)).out i) = false := by simp [arTaken, hv]
        rw [htaken]
        exact .idle _

/-- The transfer of beat 0 is that of the transaction. -/
private theorem write_drive (q : OneBeat idWidth) (data strb) (prdata : Data (contract idWidth)) (e : Bool) :
    Xfer.drive ⟨q.req.port, q.req.writeCtrl 0 ⟨data, strb, true⟩, prdata, e⟩ = (Single.write q data strb).drive := by
  rw [Xfer.drive, Req.writeCtrl, Req.beatAddr_zero]
  rfl

private theorem read_drive (q : OneBeat idWidth) (prdata : Data (contract idWidth)) (e : Bool) :
    Xfer.drive ⟨q.req.port, q.req.readCtrl 0, prdata, e⟩ = (Single.read q).drive := by
  rw [Xfer.drive, Req.readCtrl, Req.beatAddr_zero]
  rfl

/-- A write of one beat ends with this beat. -/
private theorem wDone_single (q : OneBeat idWidth) (data strb) (e : Bool) :
    Phase.wDone q.req [⟨data, strb, true⟩] [e] = .wresp q.req [⟨data, strb, true⟩] [e] false :=
  if_pos rfl

private theorem bBeat_single (q : OneBeat idWidth) (data strb) (e : Bool) :
    q.req.bBeat [⟨data, strb, true⟩] [e] = ⟨q.req.id, if e then respSlverr else respOkay⟩ := by
  have hwell : q.req.malformed [⟨data, strb, true⟩] = false := by simp [Req.malformed, q.len]
  rw [Req.bBeat, if_pos q.legal, hwell]
  cases e <;> rfl

private theorem rBeat_single (q : OneBeat idWidth) (d : ReadDone (contract idWidth)) :
    q.req.rBeat 0 d = ⟨q.req.id, d.prdata, if d.pslverr then respSlverr else respOkay, true⟩ := by
  rw [Req.rBeat, q.len]
  rfl

/-- A write in progress. -/
private theorem matches_write {q : OneBeat idWidth} {data strb} {l : List (Single idWidth)} {a w : Bool}
    (hm : Matches ⟨.write q data strb :: l, a, w⟩ ph v) (hidle : ph.isIdle = false)
    (ho : Master.Offers ⟨.write q data strb :: l, a, w⟩ i) :
    ∃ v', Serves v (i, ph.out i) v' ∧
      Matches (Master.advance ⟨.write q data strb :: l, a, w⟩ (i, ph.out i)) (ph.step i) v' := by
  have haw := awTaken_busy hidle i
  cases hm with
  | idle => cases hidle
  | wdata =>
    refine ⟨_, serves_none _ rfl rfl rfl, ?_⟩
    rw [advance_write (bTaken_none rfl), haw, wTaken_out, Phase.step]
    cases hv : i.wvalid with
    | true =>
      -- W is accepted after AW only, and the transfer starts with its first beat
      have htake : Phase.takeW q.req [] [] (⟨data, strb, true⟩ : WBeat (contract idWidth)) =
          .wapb q.req [] ⟨data, strb, true⟩ [] false := if_pos q.legal
      rw [(ho.2.2 hv).2, if_pos rfl, htake]
      exact .wapb q data strb l false
    | false => exact .wdata q data strb l
  | wapb _ _ _ _ en =>
    rw [advance_write (bTaken_none rfl), haw]
    cases en with
    | false => exact ⟨_, serves_none _ rfl rfl rfl, .wapb q data strb l true⟩
    | true =>
      rw [Phase.step]
      cases hp : i.pready q.req.port with
      | true =>
        have hx : (Phase.wapb q.req [] ⟨data, strb, true⟩ [] true).done i = [⟨q.req.port,
            q.req.writeCtrl 0 ⟨data, strb, true⟩, i.prdata q.req.port, i.pslverr q.req.port⟩] := if_pos hp
        have hact := serves_act (l := l) ((xferTaken_out _ _).trans hx) (write_drive q data strb _ _) (bTaken_none rfl) (rTaken_none rfl)
        rw [if_pos rfl]
        refine ⟨_, hact, ?_⟩
        rw [List.nil_append, List.nil_append, wDone_single]
        exact .wresp q data strb l _ false
      | false =>
        exact ⟨_, serves_none _ (if_neg (by simp [hp])) rfl rfl, .wapb q data strb l true⟩
  | wresp _ _ _ _ e v =>
    cases v with
    | false =>
      rw [advance_write (bTaken_none rfl), haw]
      exact ⟨_, serves_none _ rfl rfl rfl, .wresp q data strb l e true⟩
    | true =>
      have hb : (Phase.wresp q.req [⟨data, strb, true⟩] [e] true).b =
          some ⟨q.req.id, if e then respSlverr else respOkay⟩ := congrArg some (bBeat_single q data strb e)
      rw [Phase.step]
      cases hi : i.bready with
      | true =>
        have htaken := bTaken_some (c := (i, Phase.out (.wresp q.req [⟨data, strb, true⟩] [e] true) i)) hb hi
        rw [advance_written htaken]
        exact ⟨_, serves_b (xferTaken_out _ _) htaken (rTaken_none rfl), .idle l⟩
      | false =>
        rw [advance_write (bTaken_held hi), haw]
        exact ⟨_, serves_wait _ (xferTaken_out _ _) (bTaken_held hi) (rTaken_none rfl), .wresp q data strb l e true⟩

/-- A read in progress. -/
private theorem matches_read {q : OneBeat idWidth} {l : List (Single idWidth)} {a w : Bool}
    (hm : Matches ⟨.read q :: l, a, w⟩ ph v) (hidle : ph.isIdle = false) :
    ∃ v', Serves v (i, ph.out i) v' ∧ Matches (Master.advance ⟨.read q :: l, a, w⟩ (i, ph.out i)) (ph.step i) v' := by
  have har := arTaken_busy hidle i
  cases hm with
  | idle => cases hidle
  | rfetch =>
    rw [advance_read (rTaken_none rfl), har]
    exact ⟨_, serves_none _ rfl rfl rfl, .rapb q l false⟩
  | rapb _ _ en =>
    rw [advance_read (rTaken_none rfl), har]
    cases en with
    | false => exact ⟨_, serves_none _ rfl rfl rfl, .rapb q l true⟩
    | true =>
      rw [Phase.step]
      cases hp : i.pready q.req.port with
      | true =>
        have hx : (Phase.rapb q.req [] true).done i = [⟨q.req.port, q.req.readCtrl 0, i.prdata q.req.port,
            i.pslverr q.req.port⟩] := if_pos hp
        have hact := serves_act (l := l) ((xferTaken_out _ _).trans hx) (read_drive q _ _) (bTaken_none rfl) (rTaken_none rfl)
        rw [if_pos rfl]
        exact ⟨_, hact, .rbuf q l ⟨_, _⟩ false⟩
      | false => exact ⟨_, serves_none _ (if_neg (by simp [hp])) rfl rfl, .rapb q l true⟩
  | rbuf _ _ d v =>
    cases v with
    | false =>
      rw [advance_read (rTaken_none rfl), har]
      exact ⟨_, serves_none _ rfl rfl rfl, .rbuf q l d true⟩
    | true =>
      have hr : (Phase.rbuf q.req [] d true).r =
          some ⟨q.req.id, d.prdata, if d.pslverr then respSlverr else respOkay, true⟩ :=
        congrArg some (rBeat_single q d)
      have hlast : (([] : List (ReadDone (contract idWidth))).length == q.req.len.toNat) = true := by
        rw [q.len]
        rfl
      rw [Phase.step, hlast, if_pos rfl]
      cases hi : i.rready with
      | true =>
        have htaken := rTaken_some (c := (i, Phase.out (.rbuf q.req [] d true) i)) hr hi
        rw [advance_returned htaken]
        exact ⟨_, serves_r (xferTaken_out _ _) (bTaken_none rfl) htaken, .idle l⟩
      | false =>
        rw [advance_read (rTaken_held hi), har]
        exact ⟨_, serves_wait _ (xferTaken_out _ _) (bTaken_none rfl) (rTaken_held hi), .rbuf q l d true⟩

private theorem matches_step (hm : Matches m ph v) (ho : m.Offers i) :
    ∃ v', Serves v (i, ph.out i) v' ∧ Matches (m.advance (i, ph.out i)) (ph.step i) v' := by
  cases hm with
  | idle l => exact matches_idle l ho
  | wdata q data strb l => exact matches_write (.wdata q data strb l) rfl ho
  | wapb q data strb l en => exact matches_write (.wapb q data strb l en) rfl ho
  | wresp q data strb l e v => exact matches_write (.wresp q data strb l e v) rfl ho
  | rfetch q l => exact matches_read (.rfetch q l) rfl
  | rapb q l en => exact matches_read (.rapb q l en) rfl
  | rbuf q l d v => exact matches_read (.rbuf q l d v) rfl

private theorem matches_end (hm : Matches m ph v) (h : m.todo = []) : v.left = [] ∧ v.owed = none := by
  cases hm with
  | idle l => exact ⟨h, rfl⟩
  | wdata | wapb | wresp | rfetch | rapb | rbuf => cases h

/-- The burst bridge is a server of single-beat transactions. -/
theorem serves_run {s : State (contract idWidth)} (hs : IsReset s) {ts : List (Single idWidth)}
    {is : List (In (contract idWidth))} (h : Issues ts ((bridge _).trace s is)) :
    ∃ v, ServesAll ⟨ts, none⟩ ((bridge _).trace s is) v ∧ v.left = [] ∧ v.owed = none := by
  rw [trace_eq (rel_reset hs)] at h ⊢
  exact serves_of_step (M := engine _) (fun _ _ _ _ hm ho => matches_step hm ho) (fun _ _ _ hm he => matches_end hm he)
    (.idle ts) h

end

end Burst

/-! ### The single-beat bridge -/

theorem OneBeat.single (q : OneBeat idWidth) : q.req.Single := ⟨q.len, q.size⟩

namespace Simple

/-- The halves of a write that the bridge holds. -/
private def halves (q : OneBeat idWidth) (data : Data (contract idWidth)) (strb : Strb (contract idWidth))
    (a w : Bool) : Phase (contract idWidth) :=
  .idle (if a then some q.req else none) (if w then some ⟨data, strb, true⟩ else none)

/-- The progress of the master, the phase of the bridge, and the server that the bridge is. -/
inductive Matches : Master idWidth → Phase (contract idWidth) → Server idWidth → Prop
  | idle (l : List (Single idWidth)) : Matches ⟨l, false, false⟩ (.idle none none) ⟨l, none⟩
  | half (q : OneBeat idWidth) (data strb) (l : List (Single idWidth)) (a w : Bool) :
    Matches ⟨.write q data strb :: l, a, w⟩ (halves q data strb a w) ⟨.write q data strb :: l, none⟩
  | wapb (q : OneBeat idWidth) (data strb) (l : List (Single idWidth)) (en : Bool) :
    Matches ⟨.write q data strb :: l, true, true⟩ (.wapb q.req ⟨data, strb, true⟩ en) ⟨.write q data strb :: l, none⟩
  | wresp (q : OneBeat idWidth) (data strb) (l : List (Single idWidth)) (b : BBeat (contract idWidth)) :
    Matches ⟨.write q data strb :: l, true, true⟩ (.wresp (some b)) ⟨l, some (.inl b)⟩
  | wfree (l : List (Single idWidth)) : Matches ⟨l, false, false⟩ (.wresp none) ⟨l, none⟩
  | rapb (q : OneBeat idWidth) (l : List (Single idWidth)) (en : Bool) :
    Matches ⟨.read q :: l, true, false⟩ (.rapb q.req en) ⟨.read q :: l, none⟩
  | rresp (q : OneBeat idWidth) (l : List (Single idWidth)) (r : RBeat (contract idWidth)) :
    Matches ⟨.read q :: l, true, false⟩ (.rresp (some r)) ⟨l, some (.inr r)⟩
  | rfree (l : List (Single idWidth)) : Matches ⟨l, false, false⟩ (.rresp none) ⟨l, none⟩

section
variable {m : Master idWidth} {ph : Phase (contract idWidth)} {v : Server idWidth} {i : In (contract idWidth)}

/-- Nothing happens on APB, B and R. -/
private theorem serves_none (v : Server idWidth) (hx : ph.done i = []) (hb : ph.b = none) (hr : ph.r = none) :
    Serves v (i, ph.out i) v :=
  serves_wait v ((xferTaken_out ph i).trans hx) (bTaken_none hb) (rTaken_none hr)

/-- Outside the idle phase nothing is accepted. -/
private theorem advance_busy (hidle : ph.isIdle = false) (hb : bTaken (i, ph.out i) = [])
    (hr : rTaken (i, ph.out i) = []) : m.advance (i, ph.out i) = m := by
  refine advance_quiet ?_ ?_ ?_ hb hr
  · simp [awTaken, Phase.out, hidle]
  · simp [arTaken, Phase.out, hidle]
  · simp [wTaken_out, hidle]

/-- The halves that are missing may be accepted. -/
private theorem matches_half (q : OneBeat idWidth) (data strb) (l : List (Single idWidth)) (a w : Bool)
    (ho : Master.Offers ⟨.write q data strb :: l, a, w⟩ i) :
    Matches (Master.advance ⟨.write q data strb :: l, a, w⟩ (i, (halves q data strb a w).out i))
      ((halves q data strb a w).step i) ⟨.write q data strb :: l, none⟩ := by
  obtain ⟨har, haw, hw⟩ := ho
  have hb : bTaken (i, (halves q data strb a w).out i) = [] := bTaken_none rfl
  have htakenA : awTaken (i, (halves q data strb a w).out i) = (i.awvalid && !a) := by
    cases a <;> simp [awTaken, halves, Phase.out, Phase.isIdle, Phase.awHeld, har]
  have htakenW : (wTaken (i, (halves q data strb a w).out i)).isEmpty = !(i.wvalid && !w) := by
    rw [wTaken_out]
    cases w <;> cases hv : i.wvalid <;> simp [halves, Phase.isIdle, Phase.wHeld, har]
  have htake : Phase.takeW (if w then some ⟨data, strb, true⟩ else none) i =
      if w || i.wvalid then some ⟨data, strb, true⟩ else none := by
    rw [Phase.takeW, har]
    cases w with
    | true => rfl
    | false =>
      cases hv : i.wvalid with
      | true => rw [(hw hv).2]; rfl
      | false => rfl
  have hflagA : (a || i.awvalid && !a) = (a || i.awvalid) := by cases a <;> simp
  have hflagW : (w || !!(i.wvalid && !w)) = (w || i.wvalid) := by cases w <;> simp
  rw [advance_write hb, htakenA, htakenW, hflagA, hflagW]
  -- AW and W may come in either order or together; only with both of them held does the transfer start
  cases a with
  | true =>
    cases w with
    | true => exact .wapb q data strb l false
    | false =>
      have hstep : (halves q data strb true false).step i = halves q data strb true i.wvalid :=
        congrArg (Phase.idle (some q.req)) htake
      rw [hstep]
      exact .half q data strb l true i.wvalid
  | false =>
    have hstep : (halves q data strb false w).step i = halves q data strb i.awvalid (w || i.wvalid) := by
      show Phase.idleStep _ i = .idle _ _
      rw [Phase.idleStep, htake, har]
      cases hv : i.awvalid with
      | true =>
        rw [(haw hv).2]
        exact if_pos q.single
      | false => simp
    rw [hstep]
    exact .half q data strb l i.awvalid (w || i.wvalid)

/-- In the idle phase the next transaction may start. -/
private theorem matches_idle (l : List (Single idWidth)) (ho : Master.Offers ⟨l, false, false⟩ i) :
    Matches (Master.advance ⟨l, false, false⟩ (i, (Phase.idle none none : Phase (contract idWidth)).out i))
      ((Phase.idle none none : Phase (contract idWidth)).step i) ⟨l, none⟩ := by
  cases l with
  | nil =>
    obtain ⟨haw, hw, har⟩ := ho
    have hstep : (Phase.idle none none : Phase (contract idWidth)).step i = .idle none none := by
      simp [Phase.step, Phase.idleStep, Phase.takeW, haw, hw, har]
    rw [hstep]
    exact .idle []
  | cons t l =>
    cases t with
    | write q data strb => exact matches_half q data strb l false false ho
    | read q =>
      obtain ⟨haw, hw, har⟩ := ho
      have htaken : arTaken (i, (Phase.idle none none : Phase (contract idWidth)).out i) = i.arvalid := by
        simp [arTaken_out, Phase.isIdle, Phase.awHeld, Phase.wHeld, haw, hw]
      rw [advance_read (rTaken_none rfl), htaken, Phase.step, Phase.idleStep, Phase.takeW, haw, hw]
      cases hv : i.arvalid with
      | true =>
        have hstart : Phase.startRead q.req = .rapb q.req false := if_pos q.single
        rw [(har hv).2, hstart]
        exact .rapb q l false
      | false => exact .idle _

private theorem matches_step (hm : Matches m ph v) (ho : m.Offers i) :
    ∃ v', Serves v (i, ph.out i) v' ∧ Matches (m.advance (i, ph.out i)) (ph.step i) v' := by
  cases hm with
  | idle l => exact ⟨_, serves_none _ rfl rfl rfl, matches_idle l ho⟩
  | half q data strb l a w =>
    exact ⟨_, serves_none _ rfl rfl rfl, matches_half q data strb l a w ho⟩
  | wapb q data strb l en =>
    rw [advance_busy rfl (bTaken_none rfl) (rTaken_none rfl)]
    cases en with
    | false => exact ⟨_, serves_none _ rfl rfl rfl, .wapb q data strb l true⟩
    | true =>
      rw [Phase.step]
      cases hp : i.pready q.req.port with
      | true =>
        have hx : (Phase.wapb q.req ⟨data, strb, true⟩ true).done i = [⟨q.req.port,
            writeCtrl q.req ⟨data, strb, true⟩, i.prdata q.req.port, i.pslverr q.req.port⟩] := if_pos hp
        have hact := serves_act (t := .write q data strb) (l := l) ((xferTaken_out _ _).trans hx) rfl (bTaken_none rfl) (rTaken_none rfl)
        rw [if_pos rfl]
        exact ⟨_, hact, .wresp q data strb l _⟩
      | false =>
        exact ⟨_, serves_none _ (if_neg (by simp [hp])) rfl rfl, .wapb q data strb l true⟩
  | wresp q data strb l b =>
    have hr : rTaken (i, (Phase.wresp (some b)).out i) = [] := rTaken_none rfl
    rw [Phase.step]
    cases hi : i.bready with
    | true =>
      have htaken : bTaken (i, (Phase.wresp (some b)).out i) = [b] := bTaken_some rfl hi
      rw [advance_written htaken]
      exact ⟨_, serves_b (xferTaken_out _ _) htaken hr, .wfree l⟩
    | false =>
      rw [advance_busy rfl (bTaken_held hi) hr]
      exact ⟨_, serves_wait _ (xferTaken_out _ _) (bTaken_held hi) hr, .wresp q data strb l b⟩
  | wfree l =>
    rw [advance_busy rfl (bTaken_none rfl) (rTaken_none rfl)]
    exact ⟨_, serves_none _ rfl rfl rfl, .idle l⟩
  | rapb q l en =>
    rw [advance_busy rfl (bTaken_none rfl) (rTaken_none rfl)]
    cases en with
    | false => exact ⟨_, serves_none _ rfl rfl rfl, .rapb q l true⟩
    | true =>
      rw [Phase.step]
      cases hp : i.pready q.req.port with
      | true =>
        have hx : (Phase.rapb q.req true).done i = [⟨q.req.port, readCtrl q.req, i.prdata q.req.port,
            i.pslverr q.req.port⟩] := if_pos hp
        have hact := serves_act (t := .read q) (l := l) ((xferTaken_out _ _).trans hx) rfl (bTaken_none rfl) (rTaken_none rfl)
        rw [if_pos rfl]
        exact ⟨_, hact, .rresp q l _⟩
      | false => exact ⟨_, serves_none _ (if_neg (by simp [hp])) rfl rfl, .rapb q l true⟩
  | rresp q l r =>
    have hb : bTaken (i, (Phase.rresp (some r)).out i) = [] := bTaken_none rfl
    rw [Phase.step]
    cases hi : i.rready with
    | true =>
      have htaken : rTaken (i, (Phase.rresp (some r)).out i) = [r] := rTaken_some rfl hi
      rw [advance_returned htaken]
      exact ⟨_, serves_r (xferTaken_out _ _) hb htaken, .rfree l⟩
    | false =>
      rw [advance_busy rfl hb (rTaken_held hi)]
      exact ⟨_, serves_wait _ (xferTaken_out _ _) hb (rTaken_held hi), .rresp q l r⟩
  | rfree l =>
    rw [advance_busy rfl (bTaken_none rfl) (rTaken_none rfl)]
    exact ⟨_, serves_none _ rfl rfl rfl, .idle l⟩

private theorem matches_end (hm : Matches m ph v) (h : m.todo = []) : v.left = [] ∧ v.owed = none := by
  cases hm with
  | idle l | wfree l | rfree l => exact ⟨h, rfl⟩
  | half | wapb | wresp | rapb | rresp => cases h

/-- The single-beat bridge is a server of single-beat transactions. -/
theorem serves_run {s : State (contract idWidth)} (hs : IsReset s) {ts : List (Single idWidth)}
    {is : List (In (contract idWidth))} (h : Issues ts ((bridge _).trace s is)) :
    ∃ v, ServesAll ⟨ts, none⟩ ((bridge _).trace s is) v ∧ v.left = [] ∧ v.owed = none := by
  rw [trace_eq (rel_reset hs)] at h ⊢
  exact serves_of_step (M := engine _) (fun _ _ _ _ hm ho => matches_step hm ho) (fun _ _ _ hm he => matches_end hm he)
    (.idle ts) h

end

end Simple

/-! ### Agreement -/

/-- In both traces the k-th transfer gets the same `PRDATA` and `PSLVERR`. -/
def SameAnswers {P : Params} (tr tr' : List (Cycle P)) : Prop :=
  ∀ (k : Nat) x y, (xfers tr)[k]? = some x → (xfers tr')[k]? = some y → x.prdata = y.prdata ∧ x.pslverr = y.pslverr

private theorem sameAnswers_of_zip {P : Params} {tr tr' : List (Cycle P)}
    (h : ∀ p ∈ (xfers tr).zip (xfers tr'), p.1.prdata = p.2.prdata ∧ p.1.pslverr = p.2.pslverr) : SameAnswers tr tr' :=
  fun _ x y hx hy => h (x, y) (List.mem_of_getElem? (List.getElem?_zip_eq_some.2 ⟨hx, hy⟩))

/-- A response depends on `PRDATA` and `PSLVERR` only. -/
private theorem respond_congr (t : Single idWidth) (x y : Xfer (contract idWidth))
    (h : (x.prdata, x.pslverr) = (y.prdata, y.pslverr)) : t.respond x = t.respond y := by
  rw [Prod.mk.injEq] at h
  cases t with
  | write q data strb => rw [Single.respond, Single.respond, h.2]
  | read q => rw [Single.respond, Single.respond, h.1, h.2]

/-- Both bridges make the same transfers and give the same responses to the same single-beat transactions. -/
theorem single_beats_agree (ts : List (Single idWidth)) {s : Simple.State (contract idWidth)}
    {t : Burst.State (contract idWidth)} (hs : Simple.IsReset s) (ht : Burst.IsReset t)
    (is js : List (In (contract idWidth))) (his : Issues ts ((Simple.bridge _).trace s is))
    (hjs : Issues ts ((Burst.bridge _).trace t js))
    (hslave : SameAnswers ((Simple.bridge _).trace s is) ((Burst.bridge _).trace t js)) :
    (xfers ((Simple.bridge _).trace s is)).map Xfer.drive = (xfers ((Burst.bridge _).trace t js)).map Xfer.drive ∧
      resps ((Simple.bridge _).trace s is) = resps ((Burst.bridge _).trace t js) := by
  obtain ⟨v, hv, hdone⟩ := Simple.serves_run hs his
  obtain ⟨v', hv', hdone'⟩ := Burst.serves_run ht hjs
  refine hv.agree (f := fun x => (x.prdata, x.pslverr)) respond_congr hv' hdone hdone' (fun k x y hx hy => ?_)
  obtain ⟨hdata, herr⟩ := hslave k x y hx hy
  exact Prod.ext hdata herr

/-- A write and a read, with W before AW and wait states at one bridge, AW first and back-pressure at the other. -/
theorem single_beats_agree_write_read :
    let r := { In.ready (contract 4) with prdata0 := 9 }
    let q : OneBeat 4 := ⟨⟨5, 0x80001000, 0, 0b011, 0b01, 0b010⟩, rfl, rfl, .inr rfl⟩
    let q' : OneBeat 4 := ⟨⟨6, 0x1008, 0, 0b011, 0b00, 0b000⟩, rfl, rfl, .inl rfl⟩
    let slow := { r with pready0 := false, pready1 := false }
    let held := { r with bready := false, rready := false }
    let is := [r.withW ⟨7, 0xff, true⟩, r, r.withAw q.req, slow, slow, slow, r, r, r, r.withAr q'.req, r, r, r]
    let js := [r.withAw q.req, r, r.withW ⟨7, 0xff, true⟩, r, r, held, held, held, r, r.withAr q'.req, r, r, r, held, held,
      r, r, r]
    let tr := (Simple.bridge _).trace (.zero _) is
    let tr' := (Burst.bridge _).trace (.zero _) js
    (xfers tr).map Xfer.drive = (xfers tr').map Xfer.drive ∧ resps tr = resps tr' := by
  intro r q q' slow held is js tr tr'
  exact single_beats_agree [.write q 7 0xff, .read q'] (Simple.isReset_zero _) (Burst.isReset_zero _) is js
    (by decide +kernel) (by decide +kernel) (sameAnswers_of_zip (by decide +kernel))

end AxiApb
