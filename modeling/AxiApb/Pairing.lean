import Mathlib

/-!
# Pairing off two kinds of arrivals

Things of two kinds arrive in lanes.  In each lane those of a kind wait in a queue, and while there are things of both
kinds the first ones are taken off together.  Then the `k`-th thing of the one kind goes with the `k`-th one of the
other, whatever the order of the arrivals (`Paired.arrive`), and if what is done with the pairs of different lanes
commutes, it does not matter either which lane is served first (`foldl_eq_of_lane_eq`).
-/

namespace Pairing

variable {ι α β γ δ : Type*}

/-- An action that commutes with the actions before it can be done first. -/
private theorem foldl_front {f : γ → δ → γ} {us : List δ} {x : δ} (h : ∀ u ∈ us, ∀ g, f (f g u) x = f (f g x) u)
    (vs : List δ) (g : γ) : (us ++ x :: vs).foldl f g = (us ++ vs).foldl f (f g x) := by
  induction us generalizing g with
  | nil => rfl
  | cons u us ih =>
    rw [List.cons_append, List.cons_append, List.foldl_cons, List.foldl_cons,
      ih fun u' hu' => h u' (List.mem_cons_of_mem _ hu'), h u (List.mem_cons_self ..)]

section
variable [DecidableEq ι] {i j : ι} {d : δ} {hs hs' : List (ι × δ)}

/-! ### Lanes -/

/-- The entries of lane `i`. -/
def lane (i : ι) (hs : List (ι × δ)) : List δ :=
  hs.filterMap fun h => if h.1 = i then some h.2 else none

@[simp] theorem lane_nil (i : ι) : lane i ([] : List (ι × δ)) = [] := rfl

@[simp] theorem lane_cons_self (i : ι) (d : δ) (hs : List (ι × δ)) : lane i ((i, d) :: hs) = d :: lane i hs := by
  rw [lane, List.filterMap_cons, if_pos rfl]
  rfl

theorem lane_cons_ne (h : j ≠ i) (d : δ) (hs : List (ι × δ)) : lane i ((j, d) :: hs) = lane i hs := by
  rw [lane, List.filterMap_cons, if_neg h]
  rfl

@[simp] theorem lane_append (i : ι) (hs hs' : List (ι × δ)) : lane i (hs ++ hs') = lane i hs ++ lane i hs' :=
  List.filterMap_append

theorem lane_map_self (i : ι) (l : List δ) : lane i (l.map (i, ·)) = l := by
  induction l with
  | nil => rfl
  | cons d l ih => rw [List.map_cons, lane_cons_self, ih]

theorem lane_eq_nil_iff : lane i hs = [] ↔ ∀ h ∈ hs, h.1 ≠ i := by
  rw [lane, List.filterMap_eq_nil_iff]
  refine forall₂_congr fun h _ => ?_
  split <;> simp_all

theorem mem_lane : d ∈ lane i hs ↔ (i, d) ∈ hs := by
  induction hs with
  | nil => simp
  | cons c hs ih =>
    obtain ⟨j, e⟩ := c
    by_cases hj : j = i
    · subst hj
      simp [ih]
    · simp [lane_cons_ne hj, ih, Ne.symm hj]

theorem lane_map_ne (h : j ≠ i) (l : List δ) : lane i (l.map (j, ·)) = [] := by
  rw [lane_eq_nil_iff, List.forall_mem_map]
  exact fun _ _ => h

/-- The first entry of a lane, with what stands before it. -/
private theorem lane_split {l : List δ} (h : lane i hs = d :: l) :
    ∃ us vs, hs = us ++ (i, d) :: vs ∧ (∀ u ∈ us, u.1 ≠ i) ∧ lane i vs = l := by
  induction hs with
  | nil => cases h
  | cons c hs ih =>
    obtain ⟨j, e⟩ := c
    by_cases hj : j = i
    · subst hj
      rw [lane_cons_self, List.cons.injEq] at h
      obtain ⟨rfl, rfl⟩ := h
      exact ⟨[], hs, rfl, by simp, rfl⟩
    · rw [lane_cons_ne hj] at h
      obtain ⟨us, vs, rfl, hus, hvs⟩ := ih h
      exact ⟨(j, e) :: us, vs, rfl, by simpa [hj] using hus, hvs⟩

/-- Two lists with the same lanes: the head of the one can be brought to the front of the other. -/
private theorem lane_eq_cons (h : ∀ j, lane j ((i, d) :: hs) = lane j hs') :
    ∃ us vs, hs' = us ++ (i, d) :: vs ∧ (∀ u ∈ us, u.1 ≠ i) ∧ ∀ j, lane j hs = lane j (us ++ vs) := by
  have hi := h i
  rw [lane_cons_self] at hi
  obtain ⟨us, vs, rfl, hus, hvs⟩ := lane_split hi.symm
  refine ⟨us, vs, rfl, hus, fun j => ?_⟩
  by_cases hj : i = j
  · subst hj
    rw [lane_append, lane_eq_nil_iff.2 hus, hvs, List.nil_append]
  · have hjs := h j
    rwa [lane_cons_ne hj, lane_append, lane_cons_ne hj, ← lane_append] at hjs

theorem eq_nil_of_lane_eq (h : ∀ i, lane i ([] : List (ι × δ)) = lane i hs) : hs = [] := by
  cases hs with
  | nil => rfl
  | cons c hs =>
    obtain ⟨i, d⟩ := c
    have hi := h i
    rw [lane_cons_self] at hi
    cases hi

theorem perm_of_lane_eq (h : ∀ i, lane i hs = lane i hs') : hs.Perm hs' := by
  induction hs generalizing hs' with
  | nil => rw [eq_nil_of_lane_eq h]
  | cons c hs ih =>
    obtain ⟨us, vs, rfl, -, hrest⟩ := lane_eq_cons h
    exact ((ih hrest).cons c).trans List.perm_middle.symm

/-- If the actions of different lanes commute, the contents of the lanes tell the result. -/
theorem foldl_eq_of_lane_eq {f : γ → ι × δ → γ}
    (hcomm : ∀ x ∈ hs', ∀ y ∈ hs', x.1 ≠ y.1 → ∀ g, f (f g x) y = f (f g y) x)
    (h : ∀ i, lane i hs = lane i hs') (g : γ) : hs.foldl f g = hs'.foldl f g := by
  induction hs generalizing hs' g with
  | nil => rw [eq_nil_of_lane_eq h]
  | cons c hs ih =>
    obtain ⟨us, vs, rfl, hus, hrest⟩ := lane_eq_cons h
    have hfront : ∀ u ∈ us, ∀ g, f (f g u) c = f (f g c) u := fun u hu g =>
      hcomm u (by simp [hu]) c (by simp) (hus u hu) g
    have hsub : ∀ x ∈ us ++ vs, x ∈ us ++ c :: vs := by
      intro x hx
      simp only [List.mem_append, List.mem_cons] at hx ⊢
      exact hx.imp id Or.inr
    rw [foldl_front hfront, List.foldl_cons]
    exact ih (fun x hx y hy => hcomm x (hsub x hx) y (hsub y hy)) hrest _

/-- One lane after the other. -/
def inOrder (is : List ι) (zs : ι → List δ) : List (ι × δ) := is.flatMap fun i => (zs i).map (i, ·)

theorem lane_inOrder {is : List ι} (hnd : is.Nodup) (zs : ι → List δ) :
    lane i (inOrder is zs) = if i ∈ is then zs i else [] := by
  induction is with
  | nil => rfl
  | cons k is ih =>
    rw [List.nodup_cons] at hnd
    show lane i ((zs k).map (k, ·) ++ inOrder is zs) = _
    rw [lane_append, ih hnd.2]
    by_cases hk : k = i
    · subst hk
      rw [lane_map_self, if_neg hnd.1, if_pos (List.mem_cons_self ..), List.append_nil]
    · rw [lane_map_ne hk, List.nil_append]
      simp [Ne.symm hk]

/-! ### Queues for the lanes -/

/-- One more entry in the queue of a lane. -/
theorem update_push (f : ι → List δ) (i : ι) (d : δ) :
    Function.update f i (f i ++ [d]) = fun j => f j ++ lane j [(i, d)] := by
  funext j
  by_cases hj : i = j
  · subst hj
    simp
  · rw [lane_cons_ne hj, Function.update_of_ne (Ne.symm hj), lane_nil, List.append_nil]

/-- Queues of which only that of lane `i` is not empty. -/
def only (i : ι) (l : List δ) : ι → List δ := fun j => if j = i then l else []

theorem update_only (l l' : List δ) : Function.update (only i l) i l' = only i l' := by
  funext j
  by_cases hj : j = i
  · subst hj
    simp [only]
  · simp [only, hj]

theorem lane_only (l : List δ) : (fun j => lane j (l.map (i, ·))) = only i l := by
  funext j
  by_cases hj : j = i
  · subst hj
    simp [only, lane_map_self]
  · simp [only, hj, lane_map_ne (Ne.symm hj)]

theorem zip_only (l : List α) (l' : List β) : (fun j => (only i l j).zip (only i l' j)) = only i (l.zip l') := by
  funext j
  unfold only
  split <;> rfl

theorem drop_only {l : List α} {l' : List β} (h : l.length = l'.length) :
    (fun j => (only i l j).drop (only i l' j).length) = fun _ => [] := by
  funext j
  unfold only
  split <;> simp [h]

end

/-! ### Two queues -/

section
variable (as xs : List α) (bs ys : List β)

/-- One of the queues is empty. -/
theorem drop_eq_nil_or : as.drop bs.length = [] ∨ bs.drop as.length = [] := by
  rw [List.drop_eq_nil_iff, List.drop_eq_nil_iff]
  exact le_total _ _

/-- Where a queue is empty, nothing is taken off. -/
theorem of_one_empty {as : List α} {bs : List β} (h : as = [] ∨ bs = []) :
    as.zip bs = [] ∧ as.drop bs.length = as ∧ bs.drop as.length = bs := by
  rcases h with rfl | rfl <;> simp

/-- More arrivals: the earlier pairs stay, and the new ones are those of what waited and what is new. -/
theorem zip_append_append : (as ++ xs).zip (bs ++ ys) =
    as.zip bs ++ (as.drop bs.length ++ xs).zip (bs.drop as.length ++ ys) := by
  induction as generalizing bs with
  | nil => simp
  | cons a as ih =>
    cases bs with
    | nil => simp
    | cons b bs => simp [ih bs]

theorem drop_append_append : (as ++ xs).drop (bs ++ ys).length =
    (as.drop bs.length ++ xs).drop (bs.drop as.length ++ ys).length := by
  induction as generalizing bs with
  | nil => simp
  | cons a as ih =>
    cases bs with
    | nil => simp
    | cons b bs => simpa using ih bs

end

/-! ### All lanes -/

/-- After the arrivals `L` and `R` the pairs `hs` have been taken off and the rest waits. -/
structure Paired [DecidableEq ι] (L : ι → List α) (R : ι → List β) (hs : List (ι × α × β)) (left : ι → List α)
    (right : ι → List β) : Prop where
  left_eq : ∀ i, left i = (L i).drop (R i).length
  right_eq : ∀ i, right i = (R i).drop (L i).length
  taken : ∀ i, lane i hs = (L i).zip (R i)

section
variable [DecidableEq ι] {L xs : ι → List α} {R ys : ι → List β} {hs hs' new : List (ι × α × β)}
  {left left' : ι → List α} {right right' : ι → List β}

theorem Paired.nil : Paired (fun _ : ι => ([] : List α)) (fun _ => ([] : List β)) [] (fun _ => []) fun _ => [] :=
  ⟨fun _ => rfl, fun _ => rfl, fun _ => rfl⟩

theorem Paired.one_empty (h : Paired L R hs left right) (i : ι) : left i = [] ∨ right i = [] := by
  rw [h.left_eq, h.right_eq]
  exact drop_eq_nil_or _ _

/-- The arrivals `xs` and `ys`, after which the pairs `new` are taken off. -/
theorem Paired.arrive (h : Paired L R hs left right) (hnew : ∀ i, lane i new = (left i ++ xs i).zip (right i ++ ys i)) :
    Paired (fun i => L i ++ xs i) (fun i => R i ++ ys i) (hs ++ new)
      (fun i => (left i ++ xs i).drop (right i ++ ys i).length)
      (fun i => (right i ++ ys i).drop (left i ++ xs i).length) where
  left_eq i := by
    rw [h.left_eq, h.right_eq]
    exact (drop_append_append ..).symm
  right_eq i := by
    rw [h.left_eq, h.right_eq]
    exact (drop_append_append ..).symm
  taken i := by
    rw [lane_append, h.taken, hnew, h.left_eq, h.right_eq]
    exact (zip_append_append ..).symm

/-- The queues and the lanes depend on the arrivals of each lane only. -/
theorem Paired.unique (h : Paired L R hs left right) (h' : Paired L R hs' left' right') :
    left = left' ∧ right = right' ∧ ∀ i, lane i hs = lane i hs' :=
  ⟨funext fun i => (h.left_eq i).trans (h'.left_eq i).symm, funext fun i => (h.right_eq i).trans (h'.right_eq i).symm,
    fun i => (h.taken i).trans (h'.taken i).symm⟩

end

end Pairing
