import StatementGraph.Proofs.Nameless
import StatementGraph.Proofs.TermCasts

namespace StatementGraph

namespace Term

variable {t u arg T : Term} {p : ParamId} {pairs : List (ParamId × ParamId)}

/-- The number of projection markers, without those in the types of variables and parameters. -/
def markers : Term → Nat
  | tau => 0
  | atom _ => 0
  | var _ _ => 0
  | param _ _ => 0
  | function _ domain body => domain.markers + body.markers
  | apply head arg => head.markers + arg.markers
  | projection inner => inner.markers + 1
  | cast inner => inner.markers

theorem markers_of_equivUnder (h : equivUnder pairs t u = true) : t.markers = u.markers := by
  induction t generalizing pairs u with
  | function p domain body ihd ihb =>
    cases u with
    | function q domain' body' =>
      rw [equivUnder, Bool.and_eq_true] at h
      rw [markers, markers, ihd h.1, ihb h.2]
    | _ => cases h
  | apply head arg ihh iha =>
    cases u with
    | apply head' arg' =>
      rw [equivUnder, Bool.and_eq_true] at h
      rw [markers, markers, ihh h.1, iha h.2]
    | _ => cases h
  | projection inner ih =>
    cases u with
    | projection inner' =>
      rw [equivUnder] at h
      rw [markers, markers, ih h]
    | _ => cases h
  | cast inner ih =>
    cases u with
    | cast inner' =>
      rw [equivUnder] at h
      rw [markers, markers, ih h]
    | _ => cases h
  | _ =>
    cases u with
    | tau | atom | var | param => rfl
    | _ => cases h

theorem markers_unproject : t.unproject.markers = 0 := by
  induction t with
  | tau | atom | var | param => rfl
  | function p domain body ihd ihb => rw [unproject, markers, ihd, ihb]
  | apply head arg ihh iha => rw [unproject, markers, ihh, iha]
  | projection inner ih => exact ih
  | cast inner ih => exact ih

/-- An instance has the markers of the body besides those that the argument brings. -/
theorem markers_replaceParam :
    (t.replaceParam p arg).markers = t.markers + (t.unproject.replaceParam p arg).markers := by
  induction t with
  | tau | atom | var => rfl
  | param q type ih =>
    rw [unproject, replaceParam, replaceParam]
    split
    · exact (Nat.zero_add _).symm
    · rfl
  | function q domain body ihd ihb =>
    rw [unproject, replaceParam, replaceParam, markers, markers, markers, ihd]
    split
    · rw [markers_unproject]
      omega
    · rw [ihb]
      omega
  | apply head arg ihh iha =>
    rw [unproject, replaceParam, replaceParam, markers, markers, markers, ihh, iha]
    omega
  | projection inner ih =>
    rw [unproject, replaceParam, markers, markers, ih]
    omega
  | cast inner ih => exact ih

theorem equivUnder_unproject (hpairs : ∀ e ∈ pairs, e.1 = e.2) (h : t.markers = 0) :
    equivUnder pairs t.unproject t = true := by
  induction t generalizing pairs with
  | tau | atom | var => exact equivUnder_refl hpairs _
  | param => exact sameParam_refl hpairs _
  | function p domain body ihd ihb =>
    rw [markers, Nat.add_eq_zero_iff] at h
    have hp : ∀ e ∈ (p, p) :: pairs, e.1 = e.2 := List.forall_mem_cons.2 ⟨rfl, hpairs⟩
    rw [unproject, equivUnder, ihd hpairs h.1, ihb hp h.2]
    rfl
  | apply head arg ihh iha =>
    rw [markers, Nat.add_eq_zero_iff] at h
    rw [unproject, equivUnder, ihh hpairs h.1, iha hpairs h.2]
    rfl
  | projection inner ih => cases h
  | cast inner ih =>
    rw [unproject, equivUnder]
    exact ih hpairs h

theorem equivUnder_replaceParam_unproject (hpairs : ∀ e ∈ pairs, e.1 = e.2) (h : t.markers = 0) :
    equivUnder pairs (t.unproject.replaceParam p arg) (t.replaceParam p arg) = true := by
  induction t generalizing pairs with
  | tau | atom | var => exact equivUnder_refl hpairs _
  | param q type ih =>
    rw [unproject, replaceParam, replaceParam]
    split
    · exact equivUnder_refl hpairs _
    · exact sameParam_refl hpairs _
  | function q domain body ihd ihb =>
    rw [markers, Nat.add_eq_zero_iff] at h
    have hq : ∀ e ∈ (q, q) :: pairs, e.1 = e.2 := List.forall_mem_cons.2 ⟨rfl, hpairs⟩
    rw [unproject, replaceParam, replaceParam, equivUnder, ihd hpairs h.1, Bool.true_and]
    split
    · exact equivUnder_unproject hq h.2
    · exact ihb hq h.2
  | apply head arg ihh iha =>
    rw [markers, Nat.add_eq_zero_iff] at h
    rw [unproject, replaceParam, replaceParam, equivUnder, ihh hpairs h.1, iha hpairs h.2]
    rfl
  | projection inner ih => cases h
  | cast inner ih =>
    rw [unproject, replaceParam, replaceParam, equivUnder]
    exact ih hpairs h

theorem unproject_beq : (t.unproject == t) = true ↔ t.markers = 0 := by
  refine ⟨fun h => ?_, equivUnder_unproject fun _ he => by cases he⟩
  rw [← markers_of_equivUnder h, markers_unproject]

theorem replaceParam_unproject_beq :
    (t.replaceParam p arg == t.unproject.replaceParam p arg) = true ↔ t.markers = 0 := by
  refine ⟨fun h => ?_, fun h => ?_⟩
  · have hsame := markers_of_equivUnder h
    rw [markers_replaceParam] at hsame
    omega
  · rw [beq_comm]
    exact equivUnder_replaceParam_unproject (fun _ he => by cases he) h

theorem occurrences_replaceParam_unproject :
    (t.unproject.replaceParam p arg).occurrences = (t.replaceParam p arg).occurrences := by
  induction t with
  | tau | atom | var => rfl
  | param q type ih =>
    rw [unproject, replaceParam, replaceParam]
    split
    · rfl
    · exact ih
  | function q domain body ihd ihb =>
    rw [unproject, replaceParam, replaceParam, occurrences, occurrences, ihd]
    split
    · rw [occurrences_unproject]
    · rw [ihb]
  | apply head arg ihh iha =>
    rw [unproject, replaceParam, replaceParam, occurrences, occurrences, ihh, iha]
  | projection inner ih => exact ih
  | cast inner ih => exact ih

theorem bind_instantiate_eq_ok {domain body : Term} {y : Except TermError Term} :
    (do instantiate p domain body arg (← y)) = .ok T ↔
      ∃ found, y = .ok found ∧ (found == domain) = true ∧ T = body.replaceParam p arg := by
  cases y with
  | error f =>
    constructor
    · intro h
      cases h
    · rintro ⟨found, hfound, -⟩
      cases hfound
  | ok found =>
    constructor
    · intro h
      exact ⟨found, rfl, instantiate_ok h⟩
    · rintro ⟨found', hfound, hdomain, rfl⟩
      cases hfound
      exact if_pos hdomain

theorem compose_function_eq_ok {domain body : Term} : (function p domain body).compose arg = .ok T ↔
    ∃ found, arg.typeOf = .ok found ∧ (found == domain) = true ∧ T = body.replaceParam p arg :=
  bind_instantiate_eq_ok

theorem typeOf_apply_var_eq_ok {x : StatementId} {domain body : Term} (hc : arg.castFree = true) :
    (apply (var x (function p domain body)) arg).typeOf = .ok T ↔
      ∃ found, arg.typeOf = .ok found ∧ (found == domain.unproject) = true ∧
        T = body.unproject.replaceParam p arg := by
  obtain ⟨again, htype⟩ := exists_typeOfWith arg
  rw [typeOf_eq again (show (apply (var x (function p domain body)) arg).castFree = true from hc),
    htype]
  exact bind_instantiate_eq_ok

end Term

end StatementGraph
