import AxiApb.Ports

/-!
# The APB protocol

`ApbEdge` says what a clock edge may do to the registers of the two ports.  `ApbMove` is the protocol of one port as
it is seen: idle, one setup cycle, access cycles until `PREADY`, with one and the same control.  Ports that show only
such moves, and never two transfers at a time, keep the protocol (`ApbEdge.of_moves`).  The last section compares
inputs that differ only where no port asks for them.
-/

namespace AxiApb

variable {P : Params}

/-! ### One edge -/

/-- The ports `p` before and `p'` after a clock edge with inputs `i`. -/
structure ApbEdge (p p' : Bool → Port P) (i : In P) : Prop where
  exclusive : ¬ ((p false).psel = true ∧ (p true).psel = true)
  enable_sel : ∀ x, (p x).penable = true → (p x).psel = true
  start : ∀ x, (p x).psel = false → (p' x).penable = false
  setup : ∀ x, (p x).psel = true → (p x).penable = false → (p' x).psel = true ∧ (p' x).penable = true
  wait : ∀ x, (p x).penable = true → i.pready x = false → (p' x).psel = true ∧ (p' x).penable = true
  done : ∀ x, (p x).penable = true → i.pready x = true → (p' x).psel = false ∧ (p' x).penable = false
  stable : ∀ x, (p x).psel = true → (p' x).psel = true →
    (p' x).paddr = (p x).paddr ∧ (p' x).pprot = (p x).pprot ∧ (p' x).pwrite = (p x).pwrite
  stable_write : ∀ x, (p x).psel = true → (p' x).psel = true → (p x).pwrite = true →
    (p' x).pwdata = (p x).pwdata ∧ (p' x).pstrb = (p x).pstrb

/-- One cycle of one port, whose slave shows `ready`. -/
inductive ApbMove : PortView P → Bool → PortView P → Prop
  | rest (ready : Bool) : ApbMove .quiet ready .quiet
  | start (ready : Bool) (k : Ctrl P) : ApbMove .quiet ready ⟨true, false, some k⟩
  | enable (ready : Bool) (k : Ctrl P) : ApbMove ⟨true, false, some k⟩ ready ⟨true, true, some k⟩
  | wait (k : Ctrl P) : ApbMove ⟨true, true, some k⟩ false ⟨true, true, some k⟩
  | done (k : Ctrl P) : ApbMove ⟨true, true, some k⟩ true .quiet

/-! A transfer with control `k` on port `y`, seen on port `x`. -/

section
variable (k : Ctrl P) (x : Bool) {y : Bool} {ready : Bool → Bool}

theorem ApbMove.launched (r : Bool) : ApbMove .quiet r (if x = y then ⟨true, false, some k⟩ else .quiet) := by
  split
  · exact .start r k
  · exact .rest r

theorem ApbMove.enabled (r : Bool) :
    ApbMove (if x = y then ⟨true, false, some k⟩ else .quiet) r (if x = y then ⟨true, true, some k⟩ else .quiet) := by
  split
  · exact .enable r k
  · exact .rest r

theorem ApbMove.waited (h : ready y = false) :
    ApbMove (if x = y then ⟨true, true, some k⟩ else .quiet) (ready x)
      (if x = y then ⟨true, true, some k⟩ else .quiet) := by
  by_cases hx : x = y
  · subst hx
    rw [if_pos rfl, h]
    exact .wait k
  · rw [if_neg hx]
    exact .rest _

theorem ApbMove.completed (h : ready y = true) :
    ApbMove (if x = y then ⟨true, true, some k⟩ else .quiet) (ready x) .quiet := by
  by_cases hx : x = y
  · subst hx
    rw [if_pos rfl, h]
    exact .done k
  · rw [if_neg hx]
    exact .rest _

end

/-! From the view to the registers. -/

theorem Port.of_view_quiet {p : Port P} (h : p.view = .quiet) : p.psel = false ∧ p.penable = false := by
  simp only [Port.view, PortView.quiet, PortView.mk.injEq] at h
  exact ⟨h.1, h.2.1⟩

theorem Port.of_view_drive {p : Port P} {en : Bool} {k : Ctrl P} (h : p.view = ⟨true, en, some k⟩) :
    p.psel = true ∧ p.penable = en ∧ p.ctrl = k := by
  simp only [Port.view, PortView.mk.injEq] at h
  obtain ⟨hs, he, hk⟩ := h
  rw [hs, if_pos rfl] at hk
  exact ⟨hs, he, Option.some.inj hk⟩

/-- A selected port is the one that is driven. -/
theorem Port.of_view_drive_if {p : Port P} {x y en : Bool} {k : Ctrl P}
    (h : p.view = if x = y then ⟨true, en, some k⟩ else .quiet) (hsel : p.psel = true) : x = y ∧ p.ctrl = k := by
  by_cases hx : x = y
  · rw [if_pos hx] at h
    exact ⟨hx, (Port.of_view_drive h).2.2⟩
  · rw [if_neg hx] at h
    rw [(Port.of_view_quiet h).1] at hsel
    cases hsel

/-- The registers behind a move. -/
private theorem ApbMove.regs {p p' : Port P} {ready : Bool} (h : ApbMove p.view ready p'.view) :
    (p.psel = false ∧ p.penable = false ∧ p'.penable = false) ∨
      (p.psel = true ∧ p.penable = false ∧ p'.psel = true ∧ p'.penable = true ∧ p'.ctrl = p.ctrl) ∨
      (p.psel = true ∧ p.penable = true ∧ ready = false ∧ p'.psel = true ∧ p'.penable = true ∧ p'.ctrl = p.ctrl) ∨
      (p.psel = true ∧ p.penable = true ∧ ready = true ∧ p'.psel = false ∧ p'.penable = false) := by
  generalize hv : p.view = v at h
  generalize hv' : p'.view = v' at h
  cases h with
  | rest =>
    have h1 := Port.of_view_quiet hv
    exact Or.inl ⟨h1.1, h1.2, (Port.of_view_quiet hv').2⟩
  | start _ k =>
    have h1 := Port.of_view_quiet hv
    exact Or.inl ⟨h1.1, h1.2, (Port.of_view_drive hv').2.1⟩
  | enable _ k =>
    obtain ⟨h1, h2, h3⟩ := Port.of_view_drive hv
    obtain ⟨h1', h2', h3'⟩ := Port.of_view_drive hv'
    exact Or.inr (Or.inl ⟨h1, h2, h1', h2', h3'.trans h3.symm⟩)
  | wait k =>
    obtain ⟨h1, h2, h3⟩ := Port.of_view_drive hv
    obtain ⟨h1', h2', h3'⟩ := Port.of_view_drive hv'
    exact Or.inr (Or.inr (Or.inl ⟨h1, h2, rfl, h1', h2', h3'.trans h3.symm⟩))
  | done k =>
    obtain ⟨h1, h2, -⟩ := Port.of_view_drive hv
    obtain ⟨h1', h2'⟩ := Port.of_view_quiet hv'
    exact Or.inr (Or.inr (Or.inr ⟨h1, h2, rfl, h1', h2'⟩))

/-- While a port stays selected its control stays. -/
private theorem ApbMove.ctrl {p p' : Port P} {ready : Bool} (h : ApbMove p.view ready p'.view)
    (hs : p.psel = true) (hs' : p'.psel = true) : p'.ctrl = p.ctrl := by
  rcases h.regs with h | h | h | h
  · rw [hs] at h
    cases h.1
  · exact h.2.2.2.2
  · exact h.2.2.2.2.2
  · rw [hs'] at h
    cases h.2.2.2.1

private theorem ApbEdge.of_regs {p p' : Bool → Port P} {i : In P}
    (h : ∀ x, ApbMove (p x).view (i.pready x) (p' x).view) (hidle : ∃ x, (p x).view = .quiet) : ApbEdge p p' i where
  exclusive := by
    rintro ⟨h0, h1⟩
    obtain ⟨x, hx⟩ := hidle
    have hs := (Port.of_view_quiet hx).1
    cases x with
    | false => rw [h0] at hs; cases hs
    | true => rw [h1] at hs; cases hs
  enable_sel x he := by
    rcases (h x).regs with hx | hx | hx | hx
    · rw [he] at hx; cases hx.2.1
    · exact hx.1
    · exact hx.1
    · exact hx.1
  start x hs := by
    rcases (h x).regs with hx | hx | hx | hx
    · exact hx.2.2
    all_goals rw [hs] at hx; cases hx.1
  setup x hs he := by
    rcases (h x).regs with hx | hx | hx | hx
    · rw [hs] at hx; cases hx.1
    · exact ⟨hx.2.2.1, hx.2.2.2.1⟩
    all_goals rw [he] at hx; cases hx.2.1
  wait x he hr := by
    rcases (h x).regs with hx | hx | hx | hx
    · rw [he] at hx; cases hx.2.1
    · rw [he] at hx; cases hx.2.1
    · exact ⟨hx.2.2.2.1, hx.2.2.2.2.1⟩
    · rw [hr] at hx; cases hx.2.2.1
  done x he hr := by
    rcases (h x).regs with hx | hx | hx | hx
    · rw [he] at hx; cases hx.2.1
    · rw [he] at hx; cases hx.2.1
    · rw [hr] at hx; cases hx.2.2.1
    · exact hx.2.2.2
  stable x hs hs' := by
    have hk := (h x).ctrl hs hs'
    simp only [Port.ctrl, Ctrl.mk.injEq] at hk
    exact ⟨hk.1, hk.2.1, hk.2.2.1⟩
  stable_write x hs hs' hw := by
    have hk := (h x).ctrl hs hs'
    simp only [Port.ctrl, Ctrl.mk.injEq] at hk
    rw [hk.2.2.1, hw] at hk
    simpa using hk.2.2.2

/-- The protocol of two ports with the views `v` and `v'` is that of each of them, as long as one of them is idle. -/
theorem ApbEdge.of_moves {p p' : Bool → Port P} {v v' : Bool → PortView P} {i : In P} (hp : ∀ x, (p x).view = v x)
    (hp' : ∀ x, (p' x).view = v' x) (h : ∀ x, ApbMove (v x) (i.pready x) (v' x)) (hidle : ∃ x, v x = .quiet) :
    ApbEdge p p' i := by
  obtain ⟨y, hy⟩ := hidle
  refine ApbEdge.of_regs (fun x => ?_) ⟨y, (hp y).trans hy⟩
  rw [hp, hp']
  exact h x

/-! ### Inputs that nobody reads -/

/-- The inputs `i` with other values of `PREADY`. -/
def In.withPready (i : In P) (ready : Bool → Bool) : In P := { i with pready0 := ready false, pready1 := ready true }

/-- The same AXI inputs. -/
def SameAxi (i j : In P) : Prop :=
  i = { j with prdata0 := i.prdata0, pready0 := i.pready0, pslverr0 := i.pslverr0
               prdata1 := i.prdata1, pready1 := i.pready1, pslverr1 := i.pslverr1 }

/-- The same APB inputs where a port asks for them: `PREADY` in an access phase, `PSLVERR` when it completes, and
`PRDATA` when it is a read that completes. -/
def SameApb (v : Bool → PortView P) (i j : In P) : Prop :=
  ∀ x, (v x).psel = true → (v x).penable = true → i.pready x = j.pready x ∧ (i.pready x = true →
    i.pslverr x = j.pslverr x ∧ ∀ k ∈ (v x).ctrl, k.pwrite = false → i.prdata x = j.prdata x)

instance (i j : In P) : Decidable (SameAxi i j) := inferInstanceAs (Decidable (_ = _))

instance (v : Bool → PortView P) (i j : In P) : Decidable (SameApb v i j) :=
  inferInstanceAs (Decidable (∀ x, _ → _ → _ ∧ (_ → _ ∧ ∀ k ∈ (v x).ctrl, _)))

end AxiApb
