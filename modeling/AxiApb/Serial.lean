import Mathlib

/-!
# Serial servers

A server carries out its jobs one after the other, each by one action, whose result determines the answer, and gives
the answer before it turns to the next job.  The timing is left open.  Once such a server has answered everything,
actions and answers are determined by the jobs and the results (`Run.complete`), so that two servers with the same jobs
and the same results agree, however they are built (`Run.agree`).
-/

namespace Serial

/-- The jobs that are not carried out yet, and the answer that is owed for the one carried out last. -/
structure Server (τ ρ : Type*) where
  left : List τ
  owed : Option ρ

section
variable {τ α β γ ρ : Type*} (drive : τ → β) (shows : α → β) (respond : τ → α → ρ)

/-- What a server may do at a time: nothing, the action of its next job, or the answer it owes. -/
inductive Step : Server τ ρ → List α → List ρ → Server τ ρ → Prop
  | wait (v : Server τ ρ) : Step v [] [] v
  | act (t : τ) (l : List τ) (x : α) (h : shows x = drive t) : Step ⟨t :: l, none⟩ [x] [] ⟨l, some (respond t x)⟩
  | answer (l : List τ) (r : ρ) : Step ⟨l, some r⟩ [] [r] ⟨l, none⟩

/-- The actions and the answers of some steps. -/
inductive Run : Server τ ρ → List α → List ρ → Server τ ρ → Prop
  | nil (v : Server τ ρ) : Run v [] [] v
  | cons {u v w : Server τ ρ} {xs ys : List α} {rs ss : List ρ} :
    Step drive shows respond u xs rs v → Run v ys ss w → Run u (xs ++ ys) (rs ++ ss) w

variable {drive : τ → β} {shows : α → β} {respond : τ → α → ρ}

/-- A server that has answered everything has shown the actions of its jobs, and the answers that their results
determine. -/
theorem Run.complete {u v : Server τ ρ} {xs : List α} {rs : List ρ} (h : Run drive shows respond u xs rs v)
    (hleft : v.left = []) (howed : v.owed = none) :
    xs.map shows = u.left.map drive ∧ rs = u.owed.toList ++ List.zipWith respond u.left xs := by
  induction h with
  | nil v => simp [hleft, howed]
  | cons hstep _ ih =>
    obtain ⟨hxs, hrs⟩ := ih hleft howed
    cases hstep with
    | wait => exact ⟨hxs, hrs⟩
    | act t l x hx =>
      refine ⟨?_, ?_⟩
      · rw [List.cons_append, List.nil_append, List.map_cons, List.map_cons, hx, hxs]
      · rw [hrs]
        rfl
    | answer l r =>
      refine ⟨hxs, ?_⟩
      rw [hrs]
      rfl

/-- Answers depend on results only. -/
private theorem zipWith_congr {f : α → γ} (hrespond : ∀ t x y, f x = f y → respond t x = respond t y)
    {xs ys : List α} (h : xs.map f = ys.map f) (l : List τ) :
    List.zipWith respond l xs = List.zipWith respond l ys := by
  induction xs generalizing ys l with
  | nil =>
    rw [List.map_nil, eq_comm, List.map_eq_nil_iff] at h
    rw [h]
  | cons x xs ih =>
    cases ys with
    | nil => cases h
    | cons y ys =>
      rw [List.map_cons, List.map_cons, List.cons.injEq] at h
      cases l with
      | nil => rfl
      | cons t l => rw [List.zipWith_cons_cons, List.zipWith_cons_cons, hrespond t x y h.1, ih h.2]

/-- Two servers that have answered the same jobs, with the same result for each action. -/
theorem Run.agree {f : α → γ} (hrespond : ∀ t x y, f x = f y → respond t x = respond t y)
    {u v v' : Server τ ρ} {xs ys : List α} {rs ss : List ρ} (h : Run drive shows respond u xs rs v)
    (h' : Run drive shows respond u ys ss v') (hv : v.left = [] ∧ v.owed = none) (hv' : v'.left = [] ∧ v'.owed = none)
    (hresult : ∀ (k : Nat) x y, xs[k]? = some x → ys[k]? = some y → f x = f y) :
    xs.map shows = ys.map shows ∧ rs = ss := by
  obtain ⟨hxs, hrs⟩ := h.complete hv.1 hv.2
  obtain ⟨hys, hss⟩ := h'.complete hv'.1 hv'.2
  have hlen : xs.length = ys.length := by
    rw [← List.length_map (f := shows), hxs, ← hys, List.length_map]
  have hmap : xs.map f = ys.map f := by
    refine List.ext_getElem (by simp [hlen]) (fun k h1 h2 => ?_)
    rw [List.length_map] at h1 h2
    rw [List.getElem_map, List.getElem_map]
    exact hresult k _ _ (List.getElem?_eq_getElem h1) (List.getElem?_eq_getElem h2)
  exact ⟨hxs.trans hys.symm, by rw [hrs, hss, zipWith_congr hrespond hmap]⟩

end

end Serial
