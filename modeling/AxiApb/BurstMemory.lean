import AxiApb.ByteStore
import AxiApb.Contract

/-!
# The burst bridge in front of two memories

The bridge with a memory behind each of its APB ports, the inputs of the memories being free where a slave is free:
wait states, errors, and `PRDATA` when it is not asked for.  Every R beat that is `OKAY` carries the fold of the W
beats that were written to its address (`memory`), whatever happened before it.
-/

namespace AxiApb.Burst

open Clocked ByteStore

/-! ### The slaves -/

section
variable {P : Params}

/-- Data and strobes of a write. -/
abbrev Word (P : Params) := Data P × Strb P

/-- The bytes of `old` whose strobe is set, replaced. -/
def applyStrobe (old : Data P) (new : Word P) : Data P := mergeBytes old new.1 new.2

/-- A memory: the word at each address. -/
abbrev Mem (P : Params) := Addr P → Data P

/-- The transfer that completes on a port. -/
def completing (v : PortView P) (ready : Bool) : Option (Ctrl P) :=
  if v.psel && v.penable && ready then v.ctrl else none

/-- `PRDATA` of a slave: the stored word when a read completes without error, else anything (`free`). -/
def slaveData (m : Mem P) (v : PortView P) (ready err : Bool) (free : Data P) : Data P :=
  match completing v ready with
  | some k => if !k.pwrite && !err then m k.paddr else free
  | none => free

/-- The memory after a clock edge: a write that completes without error is merged. -/
def slaveStore (m : Mem P) (v : PortView P) (ready err : Bool) : Mem P :=
  match completing v ready with
  | some ⟨addr, _, true, some w⟩ => if err then m else write applyStrobe m (addr, w)
  | _ => m

/-- The bridge and the memories behind its ports. -/
structure System (P : Params) where
  bridge : State P
  mem : Bool → Mem P

/-- The inputs of the bridge: `i`, but for the `PRDATA` of the two memories. -/
def System.inputs (s : System P) (i : In P) : In P :=
  { i with
    prdata0 := slaveData (s.mem false) s.bridge.port0.view i.pready0 i.pslverr0 i.prdata0
    prdata1 := slaveData (s.mem true) s.bridge.port1.view i.pready1 i.pslverr1 i.prdata1 }

def system (P : Params) : Machine (In P) (Out P) (System P) where
  step s i :=
    { bridge := posedge s.bridge (s.inputs i)
      mem := fun x => slaveStore (s.mem x) (s.bridge.port x).view (i.pready x) (i.pslverr x) }
  out s i := out s.bridge (s.inputs i)

/-- The bridge in the state `s`, and all words zero. -/
def System.initial (s : State P) : System P := ⟨s, fun _ _ => 0⟩

end

variable {idWidth : Nat}

/-! ### The ledger of a trace -/

/-- What has been seen of a transaction: the W beats of a write and the `PSLVERR`s of its transfers, the number of R
beats accepted of a read. -/
inductive Txn (idWidth : Nat)
  | write (q : Req (contract idWidth)) (ws : List (WBeat (contract idWidth))) (errs : List Bool)
  | read (q : Req (contract idWidth)) (returned : Nat)

namespace Txn

/-- The beats, transfers and responses of a cycle belong to the transaction. -/
def note (c : Cycle (contract idWidth)) : Txn idWidth → Txn idWidth
  | write q ws errs => write q (ws ++ wTaken c) (errs ++ (xferTaken c).map (·.pslverr))
  | read q n => read q (n + (rTaken c).length)

/-- The W beats of a write that is not rejected whose transfers had no error, with their addresses. -/
def stores : Txn idWidth → List (BitVec 32 × Word (contract idWidth))
  | write q ws errs =>
    if q.Supported then
      (ws.zip errs).zipIdx.filterMap fun p => if p.1.2 then none else some (q.address p.2, p.1.1.wdata, p.1.1.wstrb)
    else []
  | read .. => []

end Txn

/-- The transactions of a trace, the last one first. -/
def ledgerStep (l : List (Txn idWidth)) (c : Cycle (contract idWidth)) : List (Txn idWidth) :=
  if awTaken c then .write c.1.awReq [] [] :: l
  else if arTaken c then .read c.1.arReq 0 :: l
  else match l with
    | [] => []
    | t :: l => t.note c :: l

def ledger (tr : List (Cycle (contract idWidth))) : List (Txn idWidth) := tr.foldl ledgerStep []

/-- All that was stored, in the order of acceptance. -/
def stored (l : List (Txn idWidth)) : List (BitVec 32 × Word (contract idWidth)) := l.reverse.flatMap Txn.stores

/-- The fold of what was stored at an address. -/
def lookup (l : List (Txn idWidth)) (a : BitVec 32) : Data (contract idWidth) :=
  (writesTo a (stored l)).foldl applyStrobe 0

/-- The R beat `v` is the next beat of the read on top of the ledger `l`, and carries the word at its address. -/
def ReadsBack (l : List (Txn idWidth)) (v : RBeat (contract idWidth)) : Prop :=
  ∃ q n l', l = .read q n :: l' ∧ v.rdata = lookup l (q.address n)

section
variable {l l' : List (Txn idWidth)} {q : Req (contract idWidth)} {ws : List (WBeat (contract idWidth))}
  {errs : List Bool}

theorem stored_cons (t : Txn idWidth) (l : List (Txn idWidth)) : stored (t :: l) = stored l ++ t.stores := by
  simp [stored]

/-- A beat counts as soon as its transfer is complete. -/
theorem stores_done (hq : q.Supported) (hlen : errs.length = ws.length) (w : WBeat (contract idWidth)) (e : Bool) :
    (Txn.write q (ws ++ [w]) (errs ++ [e])).stores =
      (Txn.write q ws errs).stores ++ if e then [] else [(q.address ws.length, w.wdata, w.wstrb)] := by
  simp only [Txn.stores, if_pos hq]
  rw [List.zip_append hlen.symm, List.zipIdx_append, List.filterMap_append]
  cases e <;> simp [hlen]

theorem stores_accepted (hlen : errs.length = ws.length) (w : WBeat (contract idWidth)) :
    (Txn.write q (ws ++ [w]) errs).stores = (Txn.write q ws errs).stores := by
  have hzip : (ws ++ [w]).zip errs = ws.zip errs := by
    have happ : (ws ++ [w]).zip (errs ++ []) = ws.zip errs ++ [w].zip [] := List.zip_append hlen.symm
    simpa using happ
  simp only [Txn.stores, hzip]

theorem lookup_eq (l : List (Txn idWidth)) (a : BitVec 32) :
    lookup l a = (stored l).foldl (write applyStrobe) (fun _ => 0) a := by
  rw [foldl_write]
  rfl

end

/-! ### What is committed at an edge -/

/-- The write that an edge commits: the port, the address and the data. -/
def Phase.commit {P : Params} : Phase P → In P → Option (Bool × Addr P × Word P)
  | wapb q ws w _ true, i =>
    if i.pready q.port && !i.pslverr q.port then some (q.port, q.beatAddr ws.length, w.wdata, w.wstrb) else none
  | _, _ => none

/-- The memories after an edge. -/
theorem slaveStore_out {P : Params} (m : Bool → Mem P) (ph : Phase P) (i : In P) (x : Bool) :
    slaveStore (m x) (ph.apb x) (i.pready x) (i.pslverr x) =
      match ph.commit i with
      | some (y, p) => if x = y then write applyStrobe (m x) p else m x
      | none => m x := by
  cases ph with
  | wapb q ws w es en =>
    by_cases hx : x = q.port
    · subst hx
      cases en <;> cases hp : i.pready q.port <;> cases he : i.pslverr q.port <;>
        simp [Phase.apb, Phase.commit, slaveStore, completing, Req.writeCtrl, hp, he]
    · cases en <;> cases hp : i.pready q.port <;> cases he : i.pslverr q.port <;>
        simp [Phase.apb, Phase.commit, slaveStore, completing, hx, hp, he, PortView.quiet]
  | rapb q ds en =>
    by_cases hx : x = q.port
    · subst hx
      cases en <;> cases hp : i.pready q.port <;>
        simp [Phase.apb, Phase.commit, slaveStore, completing, Req.readCtrl]
    · simp [Phase.apb, Phase.commit, slaveStore, completing, hx, PortView.quiet]
  | idle | wdata | wresp | rfetch | rbuf | rerr => rfl

/-! ### The ledger and the phase -/

/-- The transaction on top of the ledger is the one that the phase serves; the read that is returned has brought the
word at its address. -/
def Top (l : List (Txn idWidth)) : Phase (contract idWidth) → Prop
  | .idle => True
  | .wdata q ws es => ∃ l', l = .write q ws es :: l'
  | .wapb q ws w es _ => ∃ l', l = .write q (ws ++ [w]) es :: l'
  | .wresp q ws es _ => ∃ l', l = .write q ws es :: l'
  | .rfetch q ds => ∃ l', l = .read q ds.length :: l'
  | .rapb q ds _ => ∃ l', l = .read q ds.length :: l'
  | .rbuf q ds d _ =>
    (∃ l', l = .read q ds.length :: l') ∧ (d.pslverr = false → d.prdata = lookup l (q.address ds.length))
  | .rerr q n _ => ∃ l', l = .read q n :: l'

/-- Each address holds in its memory what the ledger says. -/
def Mirrors (m : Bool → Mem (contract idWidth)) (l : List (Txn idWidth)) : Prop :=
  ∀ a : BitVec 32, m (a.getLsbD 31) a = lookup l a

section
variable {l : List (Txn idWidth)} {ph : Phase (contract idWidth)} {i : In (contract idWidth)}

theorem ledgerStep_busy (h : ph.isIdle = false) (t : Txn idWidth) (l : List (Txn idWidth)) :
    ledgerStep (t :: l) (i, ph.out i) = t.note (i, ph.out i) :: l := by
  simp [ledgerStep, awTaken_busy h, arTaken_busy h]

theorem note_write (q : Req (contract idWidth)) (ws : List (WBeat (contract idWidth))) (errs : List Bool) :
    (Txn.write q ws errs).note (i, ph.out i) =
      .write q (ws ++ if i.wvalid && ph.wready then [i.wBeat] else []) (errs ++ (ph.done i).map (·.pslverr)) := by
  rw [Txn.note, wTaken_out, xferTaken_out]

theorem note_read (q : Req (contract idWidth)) (n : Nat) :
    (Txn.read q n).note (i, ph.out i) = .read q (n + (if i.rready then ph.r.toList else []).length) := by
  rw [Txn.note, rTaken_out]

private theorem note_quiet {c : Cycle (contract idWidth)} (hw : wTaken c = []) (hx : xferTaken c = [])
    (hr : rTaken c = []) (t : Txn idWidth) : t.note c = t := by
  cases t <;> simp [Txn.note, hw, hx, hr]

private theorem stored_idle (l : List (Txn idWidth)) :
    stored (ledgerStep l (i, (Phase.idle : Phase (contract idWidth)).out i)) = stored l := by
  have hnew : ∀ q, (Txn.write q [] [] : Txn idWidth).stores = [] := fun q => by simp [Txn.stores]
  unfold ledgerStep
  split
  · rw [stored_cons, hnew, List.append_nil]
  · split
    · rw [stored_cons]
      exact List.append_nil _
    · cases l with
      | nil => rfl
      | cons t l =>
        show stored (t.note _ :: l) = stored (t :: l)
        rw [note_quiet (wTaken_idle i) (xferTaken_out .idle i) (rTaken_none rfl)]

private theorem stored_read {q : Req (contract idWidth)} {n : Nat} {l : List (Txn idWidth)}
    (hidle : ph.isIdle = false) :
    stored (ledgerStep (.read q n :: l) (i, ph.out i)) = stored (.read q n :: l) := by
  rw [ledgerStep_busy hidle, note_read, stored_cons, stored_cons]
  rfl

/-- What an edge commits is what it adds to the ledger. -/
theorem stored_step (hok : ph.Ok) (h : Top l ph) :
    stored (ledgerStep l (i, ph.out i)) = stored l ++ (ph.commit i).toList.map Prod.snd := by
  cases ph with
  | idle =>
    rw [stored_idle]
    exact (List.append_nil _).symm
  | wdata q ws es =>
    obtain ⟨l, rfl⟩ := h
    obtain ⟨-, hlen⟩ := hok
    rw [ledgerStep_busy rfl, note_write, stored_cons, stored_cons]
    cases hv : i.wvalid with
    | false => simp [Phase.done, Phase.commit]
    | true =>
      by_cases hq : q.Supported
      · rw [if_pos (Req.legal_iff_supported.2 hq)] at hlen
        have := stores_accepted (q := q) hlen i.wBeat
        simp [Phase.wready, Phase.done, Phase.commit, this]
      · simp [Txn.stores, hq, Phase.commit]
  | wapb q ws w es en =>
    obtain ⟨l, rfl⟩ := h
    obtain ⟨hq, -, hlen⟩ := hok
    have hsup := Req.legal_iff_supported.1 hq
    have hw : (i.wvalid && (Phase.wapb q ws w es en).wready) = false := by simp [Phase.wready]
    rw [ledgerStep_busy rfl, note_write, hw, if_neg Bool.false_ne_true, List.append_nil, stored_cons, stored_cons,
      stores_accepted hlen]
    cases en with
    | false => simp [Phase.done, Phase.commit, stores_accepted hlen]
    | true =>
      cases hp : i.pready q.port with
      | false => simp [Phase.done, Phase.commit, hp, stores_accepted hlen]
      | true =>
        have := stores_done hsup hlen w (i.pslverr q.port)
        simp only [Phase.done, Phase.commit, hp, if_true, List.map_singleton, this, ← List.append_assoc]
        cases i.pslverr q.port <;> simp [Req.beatAddr_contract hsup.1]
  | wresp q ws es v =>
    obtain ⟨l, rfl⟩ := h
    rw [ledgerStep_busy rfl, note_write, stored_cons, stored_cons]
    simp [Phase.wready, Phase.done, Phase.commit]
  | rfetch | rapb | rerr =>
    obtain ⟨l, rfl⟩ := h
    rw [stored_read rfl]
    exact (List.append_nil _).symm
  | rbuf =>
    obtain ⟨⟨l, rfl⟩, -⟩ := h
    rw [stored_read rfl]
    exact (List.append_nil _).symm

/-- A write is committed on the port that its address selects. -/
theorem commit_window (hok : ph.Ok) {y : Bool} {p : BitVec 32 × Word (contract idWidth)}
    (h : ph.commit i = some (y, p)) : p.1.getLsbD 31 = y := by
  cases ph with
  | wapb q ws w es en =>
    obtain ⟨hq, hend, -⟩ := hok
    have hsup := Req.legal_iff_supported.1 hq
    cases en with
    | false => cases h
    | true =>
      rw [Phase.commit] at h
      split at h
      · cases h
        show (q.beatAddr ws.length).getLsbD 31 = q.port
        rw [Req.beatAddr_contract hsup.1]
        exact hsup.window (Req.wEnded_eq_false.1 hend).2
      · cases h
  | idle | wdata | wresp | rfetch | rapb | rbuf | rerr => cases h

/-- The memories follow the ledger. -/
theorem mirrors_step {m : Bool → Mem (contract idWidth)} (hok : ph.Ok) (h : Top l ph) (hm : Mirrors m l) :
    Mirrors (fun x => slaveStore (m x) (ph.apb x) (i.pready x) (i.pslverr x)) (ledgerStep l (i, ph.out i)) := by
  intro a
  show slaveStore (m (a.getLsbD 31)) _ _ _ a = _
  rw [slaveStore_out, lookup_eq, stored_step hok h]
  cases hc : ph.commit i with
  | none =>
    rw [Option.toList_none, List.map_nil, List.append_nil, ← lookup_eq]
    exact hm a
  | some yp =>
    obtain ⟨y, b, v⟩ := yp
    have hw : b.getLsbD 31 = y := commit_window (p := (b, v)) hok hc
    rw [Option.toList_some, List.map_singleton, List.foldl_append, List.foldl_cons, List.foldl_nil]
    show (if a.getLsbD 31 = y then write applyStrobe (m (a.getLsbD 31)) (b, v) else m (a.getLsbD 31)) a = _
    -- an address has its word in the memory of its own window, so the other memory may keep what it holds
    by_cases ha : a = b
    · subst ha
      rw [if_pos hw, write_self, write_self, hm a, lookup_eq]
    · have hne : ∀ f : Mem (contract idWidth), write applyStrobe f (b, v) a = f a := fun f =>
        write_of_ne applyStrobe (p := (b, v)) ha
      rw [hne, ← lookup_eq, ← hm a]
      split
      · exact hne _
      · rfl

/-- A read that completes without error returns the word at its address. -/
private theorem prdata_inputs {s : System (contract idWidth)} {q : Req (contract idWidth)}
    {ds : List (ReadDone (contract idWidth))} (hr : Rel s.bridge (.rapb q ds true)) (hm : Mirrors s.mem l)
    (hp : i.pready q.port = true) (he : i.pslverr q.port = false) :
    (s.inputs i).prdata q.port = lookup l (q.address ds.length) := by
  obtain ⟨hq, hle⟩ := hr.ok
  have hsup := Req.legal_iff_supported.1 hq
  have hin : (s.inputs i).prdata q.port =
      slaveData (s.mem q.port) (s.bridge.port q.port).view (i.pready q.port) (i.pslverr q.port) (i.prdata q.port) := by
    cases q.port <;> rfl
  have hview : (s.bridge.port q.port).view = ⟨true, true, some (q.readCtrl ds.length)⟩ := by
    rw [hr.apb, Phase.apb, if_pos rfl]
  rw [hin, hview, hp, he, ← hm, hsup.window hle, ← Req.beatAddr_contract hsup.1]
  rfl

/-- Only the end of an APB read looks at `PRDATA`. -/
private theorem step_inputs (s : System (contract idWidth)) (h : ∀ q ds, ph ≠ .rapb q ds true) :
    ph.step (s.inputs i) = ph.step i := by
  cases ph with
  | rapb q ds en =>
    cases en with
    | true => exact absurd rfl (h q ds)
    | false => rfl
  | wapb q ws w es en => cases en <;> rfl
  | wresp q ws es v => cases v <;> rfl
  | rbuf q ds d v => cases v <;> rfl
  | rerr q n v => cases v <;> rfl
  | idle | wdata | rfetch => rfl

/-- The transaction on top of the ledger follows the phase. -/
theorem top_step {s : System (contract idWidth)} (hr : Rel s.bridge ph) (h : Top l ph) (hm : Mirrors s.mem l) :
    Top (ledgerStep l (i, ph.out i)) (ph.step (s.inputs i)) := by
  cases ph with
  | idle =>
    have haw : awTaken (i, (Phase.idle : Phase (contract idWidth)).out i) = (i.awvalid && !i.arvalid) := rfl
    have har : arTaken (i, (Phase.idle : Phase (contract idWidth)).out i) = (i.arvalid && !i.awvalid) := rfl
    rw [step_inputs s (by simp)]
    unfold ledgerStep
    rw [haw, har, Phase.step]
    cases i.awvalid && !i.arvalid with
    | true => exact ⟨l, rfl⟩
    | false =>
      cases i.arvalid && !i.awvalid with
      | true =>
        rw [if_neg Bool.false_ne_true, if_pos rfl, if_neg Bool.false_ne_true, if_pos rfl, Phase.startRead]
        split <;> exact ⟨l, rfl⟩
      | false => trivial
  | wdata q ws es =>
    obtain ⟨l, rfl⟩ := h
    rw [step_inputs s (by simp), ledgerStep_busy rfl, note_write, Phase.step]
    cases hv : i.wvalid with
    | true =>
      rw [if_pos rfl, Phase.takeW]
      simp only [Phase.wready, Phase.done, Bool.and_self, if_true, List.map_nil, List.append_nil]
      split
      · exact ⟨l, rfl⟩
      · split <;> exact ⟨l, rfl⟩
    | false => exact ⟨l, by simp [Phase.done]⟩
  | wapb q ws w es en =>
    obtain ⟨l, rfl⟩ := h
    have hw : (i.wvalid && (Phase.wapb q ws w es en).wready) = false := by simp [Phase.wready]
    rw [step_inputs s (by simp), ledgerStep_busy rfl, note_write, hw, if_neg Bool.false_ne_true, List.append_nil]
    cases en with
    | false => exact ⟨l, by simp [Phase.done]⟩
    | true =>
      rw [Phase.step, Phase.done]
      cases i.pready q.port with
      | true =>
        rw [if_pos rfl, if_pos rfl, Phase.wDone]
        split <;> exact ⟨l, rfl⟩
      | false => exact ⟨l, by simp⟩
  | wresp q ws es v =>
    obtain ⟨l, rfl⟩ := h
    have hw : (i.wvalid && (Phase.wresp q ws es v).wready) = false := by simp [Phase.wready]
    rw [step_inputs s (by simp), ledgerStep_busy rfl, note_write, hw, if_neg Bool.false_ne_true, List.append_nil]
    cases v with
    | false => exact ⟨l, by simp [Phase.done]⟩
    | true =>
      rw [Phase.step]
      split
      · trivial
      · exact ⟨l, by simp [Phase.done]⟩
  | rfetch q ds =>
    obtain ⟨l, rfl⟩ := h
    rw [ledgerStep_busy rfl, note_read]
    exact ⟨l, by simp [Phase.r]⟩
  | rapb q ds en =>
    obtain ⟨l, rfl⟩ := h
    have hno : (if i.rready then (Phase.rapb q ds en).r.toList else []) = [] := by simp [Phase.r]
    rw [ledgerStep_busy rfl, note_read, hno]
    cases en with
    | false => exact ⟨l, rfl⟩
    | true =>
      rw [Phase.step]
      split
      · rename_i hp
        exact ⟨⟨l, rfl⟩, fun he => prdata_inputs hr hm hp he⟩
      · exact ⟨l, rfl⟩
  | rbuf q ds d v =>
    obtain ⟨⟨l, rfl⟩, hd⟩ := h
    rw [step_inputs s (by simp), ledgerStep_busy rfl, note_read]
    cases v with
    | false =>
      have hno : (if i.rready then (Phase.rbuf q ds d false).r.toList else []) = [] := by simp [Phase.r]
      rw [hno]
      exact ⟨⟨l, rfl⟩, hd⟩
    | true =>
      rw [Phase.step]
      cases i.rready with
      | true =>
        rw [if_pos rfl, if_pos rfl]
        split
        · trivial
        · exact ⟨l, by simp [Phase.r]⟩
      | false => exact ⟨⟨l, rfl⟩, hd⟩
  | rerr q n v =>
    obtain ⟨l, rfl⟩ := h
    rw [step_inputs s (by simp), ledgerStep_busy rfl, note_read]
    cases v with
    | false => exact ⟨l, by simp [Phase.r]⟩
    | true =>
      rw [Phase.step]
      cases i.rready with
      | true =>
        rw [if_pos rfl, if_pos rfl]
        split
        · trivial
        · exact ⟨l, by simp [Phase.r]⟩
      | false => exact ⟨l, rfl⟩

end

/-! ### Runs -/

/-- The system and the ledger of what it has shown so far. -/
def Follows (tr : List (Cycle (contract idWidth))) (s : System (contract idWidth)) : Prop :=
  ∃ ph, Rel s.bridge ph ∧ Top (ledger tr) ph ∧ Mirrors s.mem (ledger tr)

theorem follows_initial {s₀ : State (contract idWidth)} (h0 : IsReset s₀) : Follows [] (.initial s₀) :=
  ⟨_, rel_reset h0, trivial, fun _ => rfl⟩

theorem follows_step {tr : List (Cycle (contract idWidth))} {s : System (contract idWidth)} (h : Follows tr s)
    (i : In (contract idWidth)) :
    Follows (tr ++ [(i, (system _).out s i)]) ((system _).step s i) := by
  obtain ⟨ph, hr, ht, hm⟩ := h
  have hout : (system _).out s i = ph.out i := out_rel hr (s.inputs i)
  have hledger : ledger (tr ++ [(i, ph.out i)]) = ledgerStep (ledger tr) (i, ph.out i) := by
    rw [ledger, List.foldl_append]
    rfl
  rw [hout, Follows, hledger]
  refine ⟨_, rel_posedge hr (s.inputs i), top_step hr ht hm, ?_⟩
  have := mirrors_step (i := i) hr.ok ht hm
  simp only [← hr.apb] at this
  exact this

theorem follows_run {s₀ : State (contract idWidth)} (h0 : IsReset s₀) (is : List (In (contract idWidth))) :
    Follows ((system _).trace (.initial s₀) is) ((system _).run (.initial s₀) is) :=
  Machine.track (I := Follows) (fun _ _ i h _ => follows_step h i) (follows_initial h0)
    (fun _ _ => trivial)

/-- After every run from reset each R beat on offer that is `OKAY` carries the fold of what was stored at its
address. -/
theorem memory {s₀ : State (contract idWidth)} (h0 : IsReset s₀) (is : List (In (contract idWidth)))
    (i : In (contract idWidth)) (v : RBeat (contract idWidth))
    (hv : ((system _).out ((system _).run (.initial s₀) is) i).r = some v) (hok : v.rresp = respOkay) :
    ReadsBack (ledger ((system _).trace (.initial s₀) is)) v := by
  obtain ⟨ph, hr, ht, -⟩ := follows_run h0 is
  have hout : ((system _).out ((system _).run (.initial s₀) is) i).r = ph.r := congrArg Out.r (out_rel hr _)
  rw [hout] at hv
  cases ph with
  | rbuf q ds d b =>
    cases b with
    | true =>
      cases hv
      obtain ⟨⟨l, hl⟩, hd⟩ := ht
      have herr : d.pslverr = false := by
        cases he : d.pslverr with
        | true =>
          have hne : respSlverr ≠ respOkay := by decide
          rw [Req.rBeat, he, if_pos rfl] at hok
          exact absurd hok hne
        | false => rfl
      exact ⟨q, ds.length, l, hl, hd herr⟩
    | false => cases hv
  | rerr q n b =>
    cases b with
    | true =>
      cases hv
      cases hok -- `DECERR`
    | false => cases hv
  | idle | wdata | wapb | wresp | rfetch | rapb => cases hv

/-- Two writes to one address, the second one of its low byte only, and a read. -/
theorem memory_low_byte :
    let r := In.ready (contract 4)
    let q : Req (contract 4) := ⟨5, 0x1000, 0, 0b011, 0b01, 0⟩
    ReadsBack (ledger ((system _).trace (.initial (State.zero _))
      [r.withAw q, r.withW ⟨0x1122334455667788, 0xff, true⟩, r, r, r, r,
        r.withAw q, r.withW ⟨0x99, 0x01, true⟩, r, r, r, r, r.withAr q, r, r, r, r]))
      ⟨5, 0x1122334455667799, respOkay, true⟩ :=
  memory (isReset_zero _) _ (In.ready _) _ (by decide +kernel) rfl

end AxiApb.Burst
