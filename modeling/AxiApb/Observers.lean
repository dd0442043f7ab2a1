import Mathlib

/-!
# Two observers that are restarted together

An observer reads events one after the other and now and then finishes a record; then it starts anew.  Two observers
that run side by side, and are both restarted as soon as one of them finishes, lose a record when the other one
finishes in the middle of it.  For sources that begin a record only after the last one is finished (`Orderly`) nothing
is lost just if no record is disturbed in this way (`together_complete_iff`).
-/

/-- In the state `s` an event leads to a next state, or finishes a record. -/
structure Observer (ε σ α : Type*) where
  start : σ
  next : σ → ε → σ ⊕ α

namespace Observer

/-- Which of two observers that finish at one event get to report. -/
inductive Race
  | both | first | second
deriving DecidableEq

variable {ε σ σ₁ σ₂ α α₁ α₂ : Type*}

def Race.swap : Race → Race
  | both => both
  | first => second
  | second => first

def Race.reported (x : α₁) (y : α₂) : Race → List (α₁ ⊕ α₂)
  | both => [.inl x, .inr y]
  | first => [.inl x]
  | second => [.inr y]

section
variable (O : Observer ε σ α)

/-- The record that an event finishes, and the state after it. -/
def done (s : σ) (e : ε) : Option α := (O.next s e).getRight?

def after (s : σ) (e : ε) : σ := (O.next s e).elim id fun _ => O.start

/-- The state after the events `l`. -/
def run (s : σ) (l : List ε) : σ := l.foldl O.after s

/-- The records of an observer that nobody else restarts. -/
def alone : σ → List ε → List α
  | _, [] => []
  | s, e :: l => (O.done s e).toList ++ alone (O.after s e) l

/-- In the middle of a record no other one begins, and it goes on until it is finished. -/
def Orderly : σ → List ε → Prop
  | _, [] => True
  | s, e :: l => (s ≠ O.start → O.next O.start e = .inl O.start ∧ O.next s e ≠ .inl O.start) ∧ Orderly (O.after s e) l

end

section
variable {O : Observer ε σ α} {s m : σ} {e : ε} {l : List ε}

theorem after_of_done {x : α} (h : O.done s e = some x) : O.after s e = O.start := by
  unfold done at h
  unfold after
  cases hn : O.next s e with
  | inl s' => rw [hn] at h; cases h
  | inr y => rfl

theorem alone_cons : O.alone s (e :: l) = (O.done s e).toList ++ O.alone (O.after s e) l := rfl

theorem alone_append (s : σ) (l l' : List ε) : O.alone s (l ++ l') = O.alone s l ++ O.alone (O.run s l) l' := by
  induction l generalizing s with
  | nil => rfl
  | cons e l ih => rw [List.cons_append, alone_cons, alone_cons, ih, List.append_assoc]; rfl

theorem Orderly.tail (h : O.Orderly s (e :: l)) : O.Orderly (O.after s e) l := h.2

/-- A restarted observer sees nothing of the record in progress. -/
theorem Orderly.deaf (h : O.Orderly s (e :: l)) (hs : s ≠ O.start) :
    O.done O.start e = none ∧ O.after O.start e = O.start := by
  have hn := (h.1 hs).1
  simp [done, after, hn]

theorem Orderly.open (h : O.Orderly s (e :: l)) (hs : s ≠ O.start) (hd : O.done s e = none) :
    O.after s e ≠ O.start := by
  have hn := (h.1 hs).2
  unfold done at hd
  unfold after
  cases hs' : O.next s e with
  | inl s' =>
    rw [hs'] at hn
    exact fun heq => hn (congrArg _ heq)
  | inr x => rw [hs'] at hd; cases hd

end

/-! ### Side by side -/

section
variable (O₁ : Observer ε σ₁ α₁) (O₂ : Observer ε σ₂ α₂)

/-- What both report, in order, when each of them restarts both. -/
def together : σ₁ × σ₂ → List (ε × Race) → List (α₁ ⊕ α₂)
  | _, [] => []
  | (s₁, s₂), (e, r) :: l =>
    match O₁.next s₁ e, O₂.next s₂ e with
    | .inl s₁', .inl s₂' => together (s₁', s₂') l
    | .inr x, .inl _ => .inl x :: together (O₁.start, O₂.start) l
    | .inl _, .inr y => .inr y :: together (O₁.start, O₂.start) l
    | .inr x, .inr y => r.reported x y ++ together (O₁.start, O₂.start) l

def firsts (l : List (α₁ ⊕ α₂)) : List α₁ := l.filterMap Sum.getLeft?
def seconds (l : List (α₁ ⊕ α₂)) : List α₂ := l.filterMap Sum.getRight?

/-- An event after which the records in progress are `s₁'` and `s₂'`: two records are finished only if both are
reported, and no record that is in progress and finished later is cut off by the other observer. -/
def Clear (d₁ : Option α₁) (d₂ : Option α₂) (s₁' : σ₁) (s₂' : σ₂) (r : Race) (l : List ε) : Prop :=
  (d₁.isSome = true → d₂.isSome = true → r = .both) ∧
    (d₁.isSome = true → d₂ = none → s₂' ≠ O₂.start → O₂.alone s₂' l = []) ∧
      (d₂.isSome = true → d₁ = none → s₁' ≠ O₁.start → O₁.alone s₁' l = [])

def Undisturbed : σ₁ → σ₂ → List (ε × Race) → Prop
  | _, _, [] => True
  | s₁, s₂, (e, r) :: l =>
    Clear O₁ O₂ (O₁.done s₁ e) (O₂.done s₂ e) (O₁.after s₁ e) (O₂.after s₂ e) r (l.map Prod.fst) ∧
      Undisturbed (O₁.after s₁ e) (O₂.after s₂ e) l

/-- Event by event. -/
theorem undisturbed_iff {s₁ : σ₁} {s₂ : σ₂} {l : List (ε × Race)} :
    Undisturbed O₁ O₂ s₁ s₂ l ↔ ∀ pre e r post, l = pre ++ (e, r) :: post →
      Clear O₁ O₂ (O₁.done (O₁.run s₁ (pre.map Prod.fst)) e) (O₂.done (O₂.run s₂ (pre.map Prod.fst)) e)
        (O₁.after (O₁.run s₁ (pre.map Prod.fst)) e) (O₂.after (O₂.run s₂ (pre.map Prod.fst)) e) r
        (post.map Prod.fst) := by
  induction l generalizing s₁ s₂ with
  | nil =>
    refine ⟨fun _ pre e r post h => ?_, fun _ => trivial⟩
    simp at h
  | cons c l ih =>
    obtain ⟨e, r⟩ := c
    rw [Undisturbed, ih]
    constructor
    · rintro ⟨hfirst, hrest⟩ pre e' r' post h
      cases pre with
      | nil =>
        cases h
        exact hfirst
      | cons p pre =>
        cases h
        exact hrest pre e' r' post rfl
    · intro h
      exact ⟨h [] e r l rfl, fun pre e' r' post hl => h ((e, r) :: pre) e' r' post (by rw [hl]; rfl)⟩

end

section
variable {O₁ : Observer ε σ₁ α₁} {O₂ : Observer ε σ₂ α₂} {m₁ s₁ : σ₁} {m₂ s₂ : σ₂} {e : ε} {r : Race}
  {l : List (ε × Race)} {x : α₁} {y : α₂}

private theorem next_of_none {O : Observer ε σ α} {s : σ} (h : O.done s e = none) :
    O.next s e = .inl (O.after s e) := by
  unfold done at h
  unfold after
  cases hn : O.next s e with
  | inl s' => rfl
  | inr y => rw [hn] at h; cases h

private theorem next_of_some {O : Observer ε σ α} {s : σ} {z : α} (h : O.done s e = some z) :
    O.next s e = .inr z := by
  unfold done at h
  cases hn : O.next s e with
  | inl s' => rw [hn] at h; cases h
  | inr y => rw [hn] at h; cases h; rfl

theorem together_none (h₁ : O₁.done m₁ e = none) (h₂ : O₂.done m₂ e = none) :
    together O₁ O₂ (m₁, m₂) ((e, r) :: l) = together O₁ O₂ (O₁.after m₁ e, O₂.after m₂ e) l := by
  rw [together, next_of_none h₁, next_of_none h₂]

theorem together_first (h₁ : O₁.done m₁ e = some x) (h₂ : O₂.done m₂ e = none) :
    together O₁ O₂ (m₁, m₂) ((e, r) :: l) = .inl x :: together O₁ O₂ (O₁.start, O₂.start) l := by
  rw [together, next_of_some h₁, next_of_none h₂]

theorem together_second (h₁ : O₁.done m₁ e = none) (h₂ : O₂.done m₂ e = some y) :
    together O₁ O₂ (m₁, m₂) ((e, r) :: l) = .inr y :: together O₁ O₂ (O₁.start, O₂.start) l := by
  rw [together, next_of_none h₁, next_of_some h₂]

theorem together_both (h₁ : O₁.done m₁ e = some x) (h₂ : O₂.done m₂ e = some y) :
    together O₁ O₂ (m₁, m₂) ((e, r) :: l) = r.reported x y ++ together O₁ O₂ (O₁.start, O₂.start) l := by
  rw [together, next_of_some h₁, next_of_some h₂]

/-- The two observers change places. -/
theorem firsts_swap : firsts (together O₂ O₁ (m₂, m₁) (l.map fun c => (c.1, c.2.swap))) =
    seconds (together O₁ O₂ (m₁, m₂) l) := by
  induction l generalizing m₁ m₂ with
  | nil => rfl
  | cons c l ih =>
    obtain ⟨e, r⟩ := c
    rw [List.map_cons]
    cases h₁ : O₁.done m₁ e with
    | none =>
      cases h₂ : O₂.done m₂ e with
      | none => rw [together_none h₂ h₁, together_none h₁ h₂, ih]
      | some y => rw [together_first h₂ h₁, together_second h₁ h₂]; exact congrArg (y :: ·) ih
    | some x =>
      cases h₂ : O₂.done m₂ e with
      | none => rw [together_second h₂ h₁, together_first h₁ h₂]; exact ih
      | some y =>
        rw [together_both h₂ h₁, together_both h₁ h₂]
        cases r with
        | both | second => exact congrArg (y :: ·) ih
        | first => exact ih

/-- One event of the first observer: it reports what it has finished, or nothing, and goes on or is restarted. -/
private theorem firsts_cons (O₁ : Observer ε σ₁ α₁) (O₂ : Observer ε σ₂ α₂) (m₁ : σ₁) (m₂ : σ₂) (e : ε) (r : Race)
    (l : List (ε × Race)) : ∃ xs m₁' m₂', firsts (together O₁ O₂ (m₁, m₂) ((e, r) :: l)) =
      xs ++ firsts (together O₁ O₂ (m₁', m₂') l) ∧ xs.length ≤ (O₁.done m₁ e).toList.length ∧
      (m₁' = O₁.after m₁ e ∨ m₁' = O₁.start) := by
  cases h₁ : O₁.done m₁ e with
  | none =>
    cases h₂ : O₂.done m₂ e with
    | none => exact ⟨[], _, _, by rw [together_none h₁ h₂]; rfl, Nat.zero_le _, Or.inl rfl⟩
    | some y => exact ⟨[], _, _, by rw [together_second h₁ h₂]; rfl, Nat.zero_le _, Or.inr rfl⟩
  | some x =>
    cases h₂ : O₂.done m₂ e with
    | none => exact ⟨[x], _, _, by rw [together_first h₁ h₂]; rfl, Nat.le_refl _, Or.inr rfl⟩
    | some y =>
      cases r with
      | both | first => exact ⟨[x], _, _, by rw [together_both h₁ h₂]; rfl, Nat.le_refl _, Or.inr rfl⟩
      | second => exact ⟨[], _, _, by rw [together_both h₁ h₂]; rfl, Nat.zero_le _, Or.inr rfl⟩

/-- What is lost is never made up for: the first observer reports no more than there is, and less if it was cut off
from a record that is finished later. -/
private theorem firsts_le (O₂ : Observer ε σ₂ α₂) (m₂ : σ₂) (ho : O₁.Orderly s₁ (l.map Prod.fst)) (hm : m₁ = s₁ ∨ m₁ = O₁.start) :
    (firsts (together O₁ O₂ (m₁, m₂) l)).length ≤ (O₁.alone s₁ (l.map Prod.fst)).length ∧
      (m₁ ≠ s₁ → O₁.alone s₁ (l.map Prod.fst) ≠ [] →
        (firsts (together O₁ O₂ (m₁, m₂) l)).length < (O₁.alone s₁ (l.map Prod.fst)).length) := by
  induction l generalizing m₁ s₁ m₂ with
  | nil => exact ⟨Nat.le_refl _, fun _ h => absurd rfl h⟩
  | cons c l ih =>
    obtain ⟨e, r⟩ := c
    rw [List.map_cons] at ho
    dsimp only at ho
    obtain ⟨xs, m₁', m₂', heq, hxs, hm'⟩ := firsts_cons O₁ O₂ m₁ m₂ e r l
    rw [heq, List.map_cons, alone_cons, List.length_append, List.length_append]
    dsimp only
    by_cases hs : m₁ = s₁
    · subst hs
      have hrest := (ih m₂' ho.tail hm').1
      exact ⟨by omega, fun hne => absurd rfl hne⟩
    · -- cut off: it reports nothing of this record
      have hstart : m₁ = O₁.start := hm.resolve_left hs
      subst hstart
      obtain ⟨hdeaf, hstay⟩ := ho.deaf (Ne.symm hs)
      rw [hdeaf, Option.toList_none, List.length_nil] at hxs
      rw [hstay, or_self] at hm'
      subst hm'
      cases hd : O₁.done s₁ e with
      | some x =>
        have hrest := (ih m₂' ho.tail (Or.inl (after_of_done hd).symm)).1
        rw [Option.toList_some, List.length_singleton]
        exact ⟨by omega, fun _ _ => by omega⟩
      | none =>
        have hrest := ih m₂' ho.tail (Or.inr rfl)
        have hopen := ho.open (Ne.symm hs) hd
        rw [Option.toList_none, List.length_nil]
        refine ⟨by omega, fun _ hne => ?_⟩
        have hlt := hrest.2 (Ne.symm hopen) hne
        omega

private theorem seconds_le (O₁ : Observer ε σ₁ α₁) (m₁ : σ₁) (ho : O₂.Orderly s₂ (l.map Prod.fst)) (hm : m₂ = s₂ ∨ m₂ = O₂.start) :
    (seconds (together O₁ O₂ (m₁, m₂) l)).length ≤ (O₂.alone s₂ (l.map Prod.fst)).length ∧
      (m₂ ≠ s₂ → O₂.alone s₂ (l.map Prod.fst) ≠ [] →
        (seconds (together O₁ O₂ (m₁, m₂) l)).length < (O₂.alone s₂ (l.map Prod.fst)).length) := by
  have hfst : (l.map fun c => (c.1, c.2.swap)).map Prod.fst = l.map Prod.fst := by
    rw [List.map_map]
    rfl
  rw [← firsts_swap, ← hfst]
  rw [← hfst] at ho
  exact firsts_le O₁ m₁ ho hm

end

/-! ### Nothing is lost -/

section
variable {O : Observer ε σ α} {m s : σ} {e : ε} {l : List ε}

/-- The observer is where it should be, or was cut off from a record that is not finished any more. -/
private def Tracks (O : Observer ε σ α) (m s : σ) (l : List ε) : Prop :=
  m = s ∨ (m = O.start ∧ s ≠ O.start ∧ O.alone s l = [])

private theorem Tracks.next (h : Tracks O m s (e :: l)) (ho : O.Orderly s (e :: l)) :
    O.done m e = O.done s e ∧ Tracks O (O.after m e) (O.after s e) l := by
  rcases h with rfl | ⟨rfl, hs, hnil⟩
  · exact ⟨rfl, Or.inl rfl⟩
  · rw [alone_cons, List.append_eq_nil_iff, Option.toList_eq_nil_iff] at hnil
    obtain ⟨hdeaf, hstay⟩ := ho.deaf hs
    exact ⟨hdeaf.trans hnil.1.symm, Or.inr ⟨hstay, ho.open hs hnil.1, hnil.2⟩⟩

private theorem Tracks.restart (h : s ≠ O.start → O.alone s l = []) : Tracks O O.start s l := by
  by_cases hs : s = O.start
  · exact Or.inl hs.symm
  · exact Or.inr ⟨rfl, hs, h hs⟩

end

section
variable {O₁ : Observer ε σ₁ α₁} {O₂ : Observer ε σ₂ α₂} {m₁ s₁ : σ₁} {m₂ s₂ : σ₂} {l : List (ε × Race)}

private theorem complete_iff (ho₁ : O₁.Orderly s₁ (l.map Prod.fst)) (ho₂ : O₂.Orderly s₂ (l.map Prod.fst))
    (h₁ : Tracks O₁ m₁ s₁ (l.map Prod.fst)) (h₂ : Tracks O₂ m₂ s₂ (l.map Prod.fst)) :
    (firsts (together O₁ O₂ (m₁, m₂) l) = O₁.alone s₁ (l.map Prod.fst) ∧
        seconds (together O₁ O₂ (m₁, m₂) l) = O₂.alone s₂ (l.map Prod.fst)) ↔ Undisturbed O₁ O₂ s₁ s₂ l := by
  induction l generalizing m₁ m₂ s₁ s₂ with
  | nil => exact ⟨fun _ => trivial, fun _ => ⟨rfl, rfl⟩⟩
  | cons c l ih =>
    obtain ⟨e, r⟩ := c
    rw [List.map_cons] at ho₁ ho₂ h₁ h₂
    dsimp only at ho₁ ho₂ h₁ h₂
    obtain ⟨hd₁, hn₁⟩ := h₁.next ho₁
    obtain ⟨hd₂, hn₂⟩ := h₂.next ho₂
    rw [List.map_cons, alone_cons, alone_cons, Undisturbed]
    dsimp only
    cases he₁ : O₁.done s₁ e with
    | none =>
      rw [he₁] at hd₁
      cases he₂ : O₂.done s₂ e with
      | none =>
        rw [he₂] at hd₂
        rw [together_none hd₁ hd₂]
        have hclear : Clear O₁ O₂ (none : Option α₁) (none : Option α₂) (O₁.after s₁ e) (O₂.after s₂ e) r
            (l.map Prod.fst) := ⟨fun h => (by cases h), fun h => (by cases h), fun h => (by cases h)⟩
        exact (ih ho₁.tail ho₂.tail hn₁ hn₂).trans (iff_and_self.2 fun _ => hclear)
      | some y =>
        rw [he₂] at hd₂
        rw [together_second hd₁ hd₂]
        have hb₂ : O₂.start = O₂.after s₂ e := (after_of_done he₂).symm
        show (firsts (together O₁ O₂ _ l) = O₁.alone _ _ ∧ y :: seconds (together O₁ O₂ _ l) = y :: O₂.alone _ _) ↔ _
        rw [List.cons_inj_right]
        by_cases hopen : O₁.after s₁ e ≠ O₁.start → O₁.alone (O₁.after s₁ e) (l.map Prod.fst) = []
        · refine (ih ho₁.tail ho₂.tail (.restart hopen) (Or.inl hb₂)).trans (iff_and_self.2 fun _ => ?_)
          exact ⟨fun h => (by cases h), fun h => (by cases h), fun _ _ => hopen⟩
        · rw [Classical.not_imp] at hopen
          refine iff_of_false (fun h => ?_) (fun h => hopen.2 (h.1.2.2 rfl rfl hopen.1))
          have hlt := (firsts_le O₂ O₂.start ho₁.tail (Or.inr rfl)).2 (Ne.symm hopen.1) hopen.2
          exact absurd (congrArg List.length h.1) hlt.ne
    | some x =>
      rw [he₁] at hd₁
      have hb₁ : O₁.start = O₁.after s₁ e := (after_of_done he₁).symm
      cases he₂ : O₂.done s₂ e with
      | none =>
        rw [he₂] at hd₂
        rw [together_first hd₁ hd₂]
        show (x :: firsts (together O₁ O₂ _ l) = x :: O₁.alone _ _ ∧ seconds (together O₁ O₂ _ l) = O₂.alone _ _) ↔ _
        rw [List.cons_inj_right]
        by_cases hopen : O₂.after s₂ e ≠ O₂.start → O₂.alone (O₂.after s₂ e) (l.map Prod.fst) = []
        · refine (ih ho₁.tail ho₂.tail (Or.inl hb₁) (.restart hopen)).trans (iff_and_self.2 fun _ => ?_)
          exact ⟨fun _ h => (by cases h), fun _ _ => hopen, fun h => (by cases h)⟩
        · rw [Classical.not_imp] at hopen
          refine iff_of_false (fun h => ?_) (fun h => hopen.2 (h.1.2.1 rfl rfl hopen.1))
          have hlt := (seconds_le O₁ O₁.start ho₂.tail (Or.inr rfl)).2 (Ne.symm hopen.1) hopen.2
          exact absurd (congrArg List.length h.2) hlt.ne
      | some y =>
        rw [he₂] at hd₂
        rw [together_both hd₁ hd₂]
        have hb₂ : O₂.start = O₂.after s₂ e := (after_of_done he₂).symm
        have hrest := ih ho₁.tail ho₂.tail (Or.inl hb₁) (Or.inl hb₂)
        have hfirsts := (firsts_le O₂ O₂.start ho₁.tail (Or.inl hb₁)).1
        have hseconds := (seconds_le O₁ O₁.start ho₂.tail (Or.inl hb₂)).1
        cases r with
        | both =>
          show (x :: firsts (together O₁ O₂ _ l) = x :: O₁.alone _ _ ∧
            y :: seconds (together O₁ O₂ _ l) = y :: O₂.alone _ _) ↔ _
          rw [List.cons_inj_right, List.cons_inj_right]
          exact hrest.trans (iff_and_self.2 fun _ => ⟨fun _ _ => rfl, fun _ h => (by cases h), fun _ h => (by cases h)⟩)
        | first =>
          -- the record of the second observer is lost
          refine iff_of_false (fun h => ?_) (fun h => by cases h.1.1 rfl rfl)
          have hlen := congrArg List.length h.2
          change (seconds (together O₁ O₂ _ l)).length = (y :: O₂.alone _ _).length at hlen
          rw [List.length_cons] at hlen
          omega
        | second =>
          refine iff_of_false (fun h => ?_) (fun h => by cases h.1.1 rfl rfl)
          have hlen := congrArg List.length h.1
          change (firsts (together O₁ O₂ _ l)).length = (x :: O₁.alone _ _).length at hlen
          rw [List.length_cons] at hlen
          omega

/-- Two observers that restart each other report all records of both just if none is disturbed. -/
theorem together_complete_iff (ho₁ : O₁.Orderly O₁.start (l.map Prod.fst))
    (ho₂ : O₂.Orderly O₂.start (l.map Prod.fst)) :
    (firsts (together O₁ O₂ (O₁.start, O₂.start) l) = O₁.alone O₁.start (l.map Prod.fst) ∧
        seconds (together O₁ O₂ (O₁.start, O₂.start) l) = O₂.alone O₂.start (l.map Prod.fst)) ↔
      Undisturbed O₁ O₂ O₁.start O₂.start l :=
  complete_iff ho₁ ho₂ (Or.inl rfl) (Or.inl rfl)

end

end Observer
