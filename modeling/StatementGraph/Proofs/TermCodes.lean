import StatementGraph.Proofs.TermEquality

namespace StatementGraph

open Term (Symbol)

variable {rest rest' : List Symbol}

theorem StatementId.raw_inj {x y : StatementId} : x.raw = y.raw ↔ x = y :=
  ⟨StatementId.eq_of_raw, congrArg StatementId.raw⟩

theorem ParamId.raw_inj {p q : ParamId} : p.raw = q.raw ↔ p = q := by
  cases p
  cases q
  simp

namespace Place

/-- The symbols for the place of a parameter. Distances count from one. -/
def code : Place → List Symbol
  | .inl i => [.tag 0, .number (i + 1)]
  | .inr p => [.tag 1, .number p.raw]

theorem code_append_eq_iff {place place' : Place} :
    place.code ++ rest = place'.code ++ rest' ↔ place = place' ∧ rest = rest' := by
  cases place <;> cases place' <;> simp [code, ParamId.raw_inj]

theorem locate_eq_idxOf? (binders : List ParamId) (p : ParamId) :
    locate binders p = (binders.idxOf? p).elim (.inr p) .inl := by
  induction binders with
  | nil => rfl
  | cons b binders ih =>
    rw [locate, List.idxOf?_cons, ih]
    by_cases hb : b = p
    · simp [hb]
    · cases binders.idxOf? p <;> simp [hb]

end Place

namespace Nameless

/-- The code of a nameless term. The types that it carries are left out. -/
def code : Nameless → List Symbol
  | tau => [.tag 0]
  | atom name => [.tag 1, .name name]
  | var id _ => [.tag 2, .number id.raw]
  | param place _ => .tag 3 :: place.code
  | function domain body => .tag 4 :: (domain.code ++ body.code)
  | apply head arg => .tag 5 :: (head.code ++ arg.code)
  | projection inner => .tag 6 :: inner.code
  | cast inner => .tag 7 :: inner.code

theorem code_append_eq_iff {m n : Nameless} :
    m.code ++ rest = n.code ++ rest' ↔ m.erase = n.erase ∧ rest = rest' := by
  induction m generalizing n rest rest' with
  | tau => cases n <;> simp [code, erase]
  | atom name => cases n <;> simp [code, erase]
  | var id type => cases n <;> simp [code, erase, StatementId.raw_inj]
  | param place type => cases n <;> simp [code, erase, Place.code_append_eq_iff]
  | function domain body ihd ihb => cases n <;> simp [code, erase, ihd, ihb, and_assoc]
  | apply head arg ihh iha => cases n <;> simp [code, erase, ihh, iha, and_assoc]
  | projection inner ih => cases n <;> simp [code, erase, ih]
  | cast inner ih => cases n <;> simp [code, erase, ih]

end Nameless

namespace Term

variable {a b : Term} {binders : List ParamId}

theorem codeUnder_eq (t : Term) : codeUnder binders t = (t.nameless binders).code := by
  induction t generalizing binders with
  | tau | atom | var => rfl
  | param p type =>
    rw [codeUnder, nameless, Nameless.code, Place.locate_eq_idxOf?]
    cases binders.idxOf? p <;> rfl
  | function p domain body ihd ihb => rw [codeUnder, ihd, ihb, nameless, Nameless.code]
  | apply head arg ihh iha => rw [codeUnder, ihh, iha, nameless, Nameless.code]
  | projection inner ih => rw [codeUnder, ih, nameless, Nameless.code]
  | cast inner ih => rw [codeUnder, ih, nameless, Nameless.code]

theorem code_append_eq_iff :
    a.code ++ rest = b.code ++ rest' ↔ (a == b) = true ∧ rest = rest' := by
  have hbeq : (a == b) = true ↔ (a.nameless []).erase = (b.nameless []).erase := equivUnder_iff
  rw [code, code, codeUnder_eq, codeUnder_eq, Nameless.code_append_eq_iff, hbeq]

/-- Terms are equal if and only if they have the same code. -/
theorem code_characterizes_beq :
    (∀ a b : Term, (a == b) = true ↔ a.code = b.code) ∧
      (∀ a b : Term, a.filedWith b = (a == b)) ∧
      ∀ a b : Term, a.code <+: b.code ↔ (a == b) = true := by
  have hcode (a b : Term) : a.code = b.code ↔ (a == b) = true := by
    simpa using @code_append_eq_iff [] [] a b
  refine ⟨fun a b => (hcode a b).symm, fun a b => ?_, fun a b => ⟨?_, ?_⟩⟩
  · have hequiv : a.equiv b = (a == b) := rfl
    rw [filedWith, hequiv, Bool.and_eq_right_iff_imp, decide_eq_true_iff]
    exact (hcode a b).2
  · rintro ⟨rest, hrest⟩
    have happend : a.code ++ rest = b.code ++ [] := by rw [hrest, List.append_nil]
    exact (code_append_eq_iff.1 happend).1
  · intro h
    have heq := (hcode a b).2 h
    exact heq ▸ List.prefix_refl a.code

end Term

end StatementGraph
