import Mathlib.Data.List.Perm.Subperm
import Mathlib.Logic.Relation
import StatementGraph.Graph.Walk

namespace StatementGraph.Walk

variable {α : Type}

/-- A piece of a depth-first ordering leaves whatever it enters, and nothing else. -/
structure Advances (S : α → Prop) (p q : Progress α) : Prop where
  entered : ∀ a ∈ p.entered, a ∈ q.entered
  left : ∀ a ∈ p.left, a ∈ q.left
  balanced : ∀ a ∈ q.entered, a ∈ p.entered ∨ a ∈ q.left
  within : ∀ a ∈ q.left, a ∈ p.left ∨ S a
  frozen : ∀ a ∈ p.entered, a ∈ q.left → a ∈ p.left

theorem Advances.refl {S : α → Prop} (p : Progress α) : Advances S p p :=
  ⟨fun _ h => h, fun _ h => h, fun _ h => Or.inl h, fun _ h => Or.inl h, fun _ _ h => h⟩

theorem Advances.trans {S : α → Prop} {p q r : Progress α} (h : Advances S p q)
    (h' : Advances S q r) : Advances S p r where
  entered a ha := h'.entered a (h.entered a ha)
  left a ha := h'.left a (h.left a ha)
  balanced a ha := by
    rcases h'.balanced a ha with ha | ha
    · exact (h.balanced a ha).imp id (h'.left a)
    · exact Or.inr ha
  within a ha := by
    rcases h'.within a ha with ha | ha
    · exact h.within a ha
    · exact Or.inr ha
  frozen a ha hleft := h.frozen a ha (h'.frozen a (h.entered a ha) hleft)

theorem advances_foldl {S : α → Prop} {step : Progress α → α → Progress α} {l : List α}
    (hstep : ∀ p, ∀ a ∈ l, Advances S p (step p a)) (p : Progress α) :
    Advances S p (l.foldl step p) := by
  induction l generalizing p with
  | nil => exact .refl p
  | cons a rest ih =>
    have hrest := ih fun p b hb => hstep p b (List.mem_cons_of_mem _ hb)
    exact (hstep p a List.mem_cons_self).trans (hrest _)

variable [DecidableEq α] {next : α → List α} {found stack seeds xs U : List α} {x y : α}

theorem mem_unseen : x ∈ unseen found xs ↔ x ∈ xs ∧ x ∉ found := by
  induction xs generalizing found with
  | nil => simp [unseen]
  | cons a rest ih =>
    rw [unseen]
    split
    · rename_i ha
      rw [ih, List.mem_cons]
      constructor
      · exact fun h => ⟨Or.inr h.1, h.2⟩
      · rintro ⟨rfl | h, hf⟩
        · exact absurd ha hf
        · exact ⟨h, hf⟩
    · rename_i ha
      rw [List.mem_cons, ih, List.mem_cons, List.mem_cons]
      by_cases hx : x = a
      · simp [hx, ha]
      · simp [hx]

theorem nodup_unseen : (unseen found xs).Nodup := by
  induction xs generalizing found with
  | nil => exact List.nodup_nil
  | cons a rest ih =>
    rw [unseen]
    split
    · exact ih
    · refine List.nodup_cons.2 ⟨fun ha => ?_, ih⟩
      exact (mem_unseen.1 ha).2 List.mem_cons_self

theorem nodup_append_unseen (h : found.Nodup) : (found ++ unseen found xs).Nodup := by
  refine List.nodup_append.2 ⟨h, nodup_unseen, ?_⟩
  rintro a ha b hb rfl
  exact (mem_unseen.1 hb).2 ha

theorem subset_explore (fuel : Nat) (h : x ∈ found) : x ∈ explore next fuel stack found := by
  induction fuel generalizing stack found with
  | zero => exact h
  | succ fuel ih =>
    cases stack with
    | nil => exact h
    | cons a stack => exact ih (List.mem_append_left _ h)

/-- How a walk goes on, and what it finds in the end, with no bound on its steps. -/
inductive Explores (next : α → List α) : List α → List α → List α → Prop where
  | done {found : List α} : Explores next [] found found
  | expand {x : α} {stack found result : List α}
      (h : Explores next ((unseen found (next x)).reverse ++ stack)
        (found ++ unseen found (next x)) result) :
      Explores next (x :: stack) found result

theorem stack_subset_expand (hstack : ∀ a ∈ x :: stack, a ∈ found) :
    ∀ b ∈ (unseen found (next x)).reverse ++ stack, b ∈ found ++ unseen found (next x) := by
  intro b hb
  rcases List.mem_append.1 hb with hb | hb
  · exact List.mem_append_right _ (List.mem_reverse.1 hb)
  · exact List.mem_append_left _ (hstack b (List.mem_cons_of_mem _ hb))

theorem explores_explore (fuel : Nat) (hnd : found.Nodup) (hU : ∀ a ∈ found, a ∈ U)
    (hclosed : ∀ a ∈ U, ∀ b ∈ next a, b ∈ U) (hstack : ∀ a ∈ stack, a ∈ found)
    (hfuel : U.length - found.length + stack.length ≤ fuel) :
    Explores next stack found (explore next fuel stack found) := by
  induction fuel generalizing stack found with
  | zero =>
    obtain rfl : stack = [] := List.length_eq_zero_iff.1 (by omega)
    exact .done
  | succ fuel ih =>
    cases stack with
    | nil => exact .done
    | cons a stack =>
      have ha := hstack a List.mem_cons_self
      have hnew : ∀ b ∈ found ++ unseen found (next a), b ∈ U := by
        intro b hb
        rcases List.mem_append.1 hb with hb | hb
        · exact hU b hb
        · exact hclosed a (hU a ha) b (mem_unseen.1 hb).1
      have hlen : (found ++ unseen found (next a)).length ≤ U.length :=
        (List.subperm_of_subset (nodup_append_unseen hnd) hnew).length_le
      apply Explores.expand
      apply ih (nodup_append_unseen hnd) hnew (stack_subset_expand hstack)
      -- a node goes on the stack when it is found, so it is paid for once
      rw [List.length_append] at hlen ⊢
      rw [List.length_append, List.length_reverse]
      rw [List.length_cons] at hfuel
      omega

/-- A walk that ends has found a set of nodes that is closed under neighbours. -/
theorem Explores.closed {result : List α} (h : Explores next stack found result)
    (hdone : ∀ a ∈ found, a ∈ stack ∨ ∀ b ∈ next a, b ∈ found) (hx : x ∈ result)
    (hy : y ∈ next x) : y ∈ result := by
  induction h with
  | done =>
    rcases hdone x hx with h | h
    · cases h
    · exact h y hy
  | @expand a stack found result _ ih =>
    refine ih ?_ hx
    intro b hb
    rw [List.mem_append, List.mem_reverse]
    rcases List.mem_append.1 hb with hb | hb
    · rcases hdone b hb with hb' | hb'
      · rcases List.mem_cons.1 hb' with rfl | hb'
        · -- the node just expanded: its neighbours were found before, or are new
          right
          intro d hd
          by_cases hf : d ∈ found
          · exact List.mem_append_left _ hf
          · exact List.mem_append_right _ (mem_unseen.2 ⟨hd, hf⟩)
        · exact Or.inl (Or.inr hb')
      · exact Or.inr fun d hd => List.mem_append_left _ (hb' d hd)
    · exact Or.inl (Or.inl hb)

theorem explore_sound (fuel : Nat) (hstack : ∀ a ∈ stack, a ∈ found)
    (hx : x ∈ explore next fuel stack found) :
    ∃ a ∈ found, Relation.ReflTransGen (fun a b => b ∈ next a) a x := by
  induction fuel generalizing stack found with
  | zero => exact ⟨x, hx, .refl⟩
  | succ fuel ih =>
    cases stack with
    | nil => exact ⟨x, hx, .refl⟩
    | cons a stack =>
      obtain ⟨b, hb, hreach⟩ := ih (stack_subset_expand hstack) hx
      rcases List.mem_append.1 hb with hb | hb
      · exact ⟨b, hb, hreach⟩
      · exact ⟨a, hstack a List.mem_cons_self, .head (mem_unseen.1 hb).1 hreach⟩

theorem mem_unseen_nil : x ∈ unseen [] xs ↔ x ∈ xs := by
  rw [mem_unseen]
  simp

theorem explores_reach {bound : Nat} (hnext : ∀ a, ∀ b ∈ next a, b ∈ U)
    (hbound : U.length + seeds.length ≤ bound) :
    Explores next (unseen [] seeds) (unseen [] seeds) (reach next bound seeds) := by
  rw [← List.length_append] at hbound
  have hmeets (a : α) (ha : a ∈ unseen [] seeds) : a ∈ U ++ seeds :=
    List.mem_append_right _ (mem_unseen_nil.1 ha)
  have hlen : (unseen [] seeds).length ≤ (U ++ seeds).length :=
    (List.subperm_of_subset nodup_unseen hmeets).length_le
  exact explores_explore bound nodup_unseen hmeets
    (fun a _ b hb => List.mem_append_left _ (hnext a b hb)) (fun _ h => h) (by omega)

theorem explores_reach_singleton {bound : Nat} (hnext : ∀ a, ∀ b ∈ next a, b ∈ U)
    (hbound : U.length + 1 ≤ bound) : Explores next [x] [x] (reach next bound [x]) := by
  have hends := @explores_reach _ _ next [x] U bound hnext hbound
  rwa [unseen, if_neg List.not_mem_nil, unseen] at hends

theorem mem_reach {bound : Nat} (hnext : ∀ a, ∀ b ∈ next a, b ∈ U)
    (hbound : U.length + seeds.length ≤ bound) : x ∈ reach next bound seeds ↔
      ∃ a ∈ seeds, Relation.ReflTransGen (fun a b => b ∈ next a) a x := by
  constructor
  · intro hx
    obtain ⟨a, ha, hreach⟩ := explore_sound bound (fun _ h => h) hx
    exact ⟨a, mem_unseen_nil.1 ha, hreach⟩
  · rintro ⟨a, ha, hreach⟩
    induction hreach with
    | refl => exact subset_explore bound (mem_unseen_nil.2 ha)
    | tail _ hstep ih =>
      exact (explores_reach hnext hbound).closed (fun b hb => Or.inl hb) ih hstep

theorem advances_visit {S : α → Prop} {before : α → List α}
    (hS : ∀ a, S a → ∀ b ∈ before a, S b) (depth : Nat) (p : Progress α) (hx : S x) :
    Advances S p (visit before depth p x) := by
  induction depth generalizing p x with
  | zero => exact .refl p
  | succ depth ih =>
    rw [visit]
    split
    · exact .refl p
    · rename_i hnew
      have hin := advances_foldl (fun q a ha => ih q (hS x hx a ha))
        { p with entered := x :: p.entered }
      refine ⟨?_, ?_, ?_, ?_, ?_⟩
      · exact fun a ha => hin.entered a (List.mem_cons_of_mem _ ha)
      · exact fun a ha => List.mem_append_left _ (hin.left a ha)
      · intro a ha
        rcases hin.balanced a ha with ha | ha
        · rcases List.mem_cons.1 ha with rfl | ha
          · exact Or.inr (List.mem_append_right _ List.mem_cons_self)
          · exact Or.inl ha
        · exact Or.inr (List.mem_append_left _ ha)
      · intro a ha
        rcases List.mem_append.1 ha with ha | ha
        · exact hin.within a ha
        · exact Or.inr (List.mem_singleton.1 ha ▸ hx)
      · intro a ha hleft
        rcases List.mem_append.1 hleft with hleft | hleft
        · exact hin.frozen a (List.mem_cons_of_mem _ ha) hleft
        · exact absurd (List.mem_singleton.1 hleft ▸ ha) hnew

theorem mem_entered_visit {before : α → List α} (depth : Nat) (p : Progress α) (x : α) :
    x ∈ (visit before (depth + 1) p x).entered := by
  rw [visit]
  split
  · assumption
  · exact (advances_foldl (S := fun _ => True)
      (fun q a _ => advances_visit (fun _ _ _ _ => trivial) depth q trivial)
      { p with entered := x :: p.entered }).entered x List.mem_cons_self

theorem mem_order {before : α → List α} {nodes : List α}
    (hclosed : ∀ a ∈ nodes, ∀ b ∈ before a, b ∈ nodes) : x ∈ order before nodes ↔ x ∈ nodes := by
  have hvisit (p : Progress α) (a : α) (ha : a ∈ nodes) :
      Advances (· ∈ nodes) p (visit before nodes.length p a) :=
    advances_visit hclosed nodes.length p ha
  have hall := advances_foldl hvisit {}
  constructor
  · intro hx
    rcases hall.within x hx with h | h
    · cases h
    · exact h
  · intro hx
    obtain ⟨l, r, hl⟩ := List.append_of_mem hx
    have hdepth : ∃ depth, nodes.length = depth + 1 := by
      rw [hl, List.length_append, List.length_cons]
      exact ⟨l.length + r.length, rfl⟩
    obtain ⟨depth, hdepth⟩ := hdepth
    -- the node is entered in its own turn at the latest, and whatever is entered gets placed
    have hentered : x ∈ (nodes.foldl (visit before nodes.length) {}).entered := by
      have hright := advances_foldl (l := r)
        (fun p a ha => hvisit p a (hl ▸ List.mem_append_right _ (List.mem_cons_of_mem _ ha)))
      have hhere :
          x ∈ (visit before (depth + 1) (l.foldl (visit before nodes.length) {}) x).entered :=
        mem_entered_visit depth _ x
      rw [← hdepth] at hhere
      have hafter := (hright _).entered x hhere
      rwa [← List.foldl_cons, ← List.foldl_append, ← hl] at hafter
    rcases hall.balanced x hentered with h | h
    · cases h
    · exact h

end StatementGraph.Walk
