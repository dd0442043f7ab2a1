import Mathlib

/-!
# Procedures with wait loops

A procedure is a function on a state that may run out of rounds in a wait loop.  `Ends t s Q` says that `t` does not do
so from `s`, and that `Q` holds of its result and of the state it leaves.  The rules go through a procedure from its
first step on; a loop needs what holds before each of its rounds, and a wait loop the number of rounds as well.
-/

namespace Tasks

/-- `none` is a wait loop that ran out of rounds. -/
abbrev Task (σ α : Type) := StateT σ Option α

variable {σ τ α β : Type}

/-- `while (no value) t`, which gives the value; at most `n` looks at the state. -/
def untilSome (f : σ → Option α) (t : Task σ Unit) : Nat → Task σ α
  | 0 => failure
  | n + 1 => do
    match f (← get) with
    | some a => return a
    | none =>
      t
      untilSome f t n

/-- `for (i = 0; i < n; i++)` with a value that the rounds hand on. -/
def forTo (n : Nat) (b : β) (f : Nat → β → Task σ β) : Task σ β :=
  match n with
  | 0 => pure b
  | n + 1 => do f n (← forTo n b f)

/-- A procedure on a part of the state. -/
def within (part : σ → τ) (set : τ → σ → σ) (t : Task τ α) : Task σ α :=
  fun s => (t.run (part s)).map fun r => (r.1, set r.2 s)

/-! ### Rules -/

def Ends (t : Task σ α) (s : σ) (Q : α → σ → Prop) : Prop := ∃ a s', t.run s = some (a, s') ∧ Q a s'

section
variable {s : σ} {Q : α → σ → Prop}

theorem ends_bind {t : Task σ β} {f : β → Task σ α} {R : β → σ → Prop} (ht : Ends t s R)
    (hf : ∀ b s', R b s' → Ends (f b) s' Q) : Ends (t >>= f) s Q := by
  obtain ⟨b, s₁, hb, hR⟩ := ht
  obtain ⟨a, s₂, ha, hQ⟩ := hf b s₁ hR
  refine ⟨a, s₂, ?_, hQ⟩
  rw [StateT.run_bind, hb]
  exact ha

theorem Ends.mono {t : Task σ α} {R : α → σ → Prop} (ht : Ends t s R) (h : ∀ a s', R a s' → Q a s') : Ends t s Q := by
  obtain ⟨a, s', ha, hR⟩ := ht
  exact ⟨a, s', ha, h a s' hR⟩

/-- A step that changes the state, and what follows it. -/
theorem ends_modify {f : σ → σ} {t : Task σ α} (h : Ends t (f s) Q) : Ends (do modify f; t) s Q :=
  ends_bind (R := fun _ s' => s' = f s) ⟨(), f s, rfl, rfl⟩ fun _ s' hs => by rw [hs]; exact h

theorem ends_within {part : σ → τ} {set : τ → σ → σ} {t : Task τ α}
    (h : Ends t (part s) fun a x => Q a (set x s)) : Ends (within part set t) s Q := by
  obtain ⟨a, x, ha, hQ⟩ := h
  refine ⟨a, set x s, ?_, hQ⟩
  show (t.run (part s)).map _ = _
  rw [ha]
  rfl

end

end Tasks
