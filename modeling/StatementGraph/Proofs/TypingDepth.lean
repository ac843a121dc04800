import StatementGraph.Proofs.TermScope

namespace StatementGraph

namespace Term

variable {t T image : Term} {p : ParamId} {depth depth' : Nat}
  {again again' : Term → Except TermError Term} {ended ended' : Term → Prop}

/-- Typing a term ends if typing the types of what is inside its casts does. -/
def EndsWith (again : Term → Except TermError Term) (ended : Term → Prop) : Term → Prop
  | tau => True
  | atom _ => True
  | var _ _ => True
  | param _ _ => True
  | function _ _ body => EndsWith again ended body
  | apply head arg => EndsWith again ended head ∧ EndsWith again ended arg
  | projection inner => EndsWith again ended inner
  | cast inner => EndsWith again ended inner ∧ ∀ T, typeOfWith again inner = .ok T → ended T

def EndsWithin : Nat → Term → Prop
  | 0 => fun _ => False
  | depth + 1 => EndsWith (typeOfDepth depth) (EndsWithin depth)

theorem EndsWith.typeOfWith_eq (h : EndsWith again ended t)
    (hsame : ∀ u, ended u → again' u = again u) : typeOfWith again' t = typeOfWith again t := by
  induction t with
  | tau | atom | var | param => rfl
  | function q domain body ihd ihb => rw [typeOfWith, typeOfWith, ihb h]
  | apply head arg ihh iha => rw [typeOfWith, typeOfWith, ihh h.1, iha h.2]
  | projection inner ih => exact ih h
  | cast inner ih =>
    rw [typeOfWith, typeOfWith, ih h.1]
    cases hT : typeOfWith again inner with
    | error => rfl
    | ok T => exact hsame T (h.2 T hT)

theorem EndsWith.mono (h : EndsWith again ended t) (hsame : ∀ u, ended u → again' u = again u)
    (hended : ∀ u, ended u → ended' u) : EndsWith again' ended' t := by
  induction t with
  | tau | atom | var | param => trivial
  | function q domain body ihd ihb => exact ihb h
  | apply head arg ihh iha => exact ⟨ihh h.1, iha h.2⟩
  | projection inner ih => exact ih h
  | cast inner ih =>
    refine ⟨ih h.1, fun T hT => hended T (h.2 T ?_)⟩
    rwa [h.1.typeOfWith_eq hsame] at hT

theorem endsWith_of_castFree (hc : t.castFree = true) : EndsWith again ended t := by
  induction t with
  | tau | atom | var | param => trivial
  | function q domain body ihd ihb =>
    rw [castFree, Bool.and_eq_true] at hc
    exact ihb hc.2
  | apply head arg ihh iha =>
    rw [castFree, Bool.and_eq_true] at hc
    exact ⟨ihh hc.1, iha hc.2⟩
  | projection inner ih => exact ih hc
  | cast => cases hc

theorem EndsWithin.succ (h : EndsWithin depth t) :
    typeOfDepth (depth + 1) t = typeOfDepth depth t ∧ EndsWithin (depth + 1) t := by
  induction depth generalizing t with
  | zero => exact h.elim
  | succ depth ih =>
    have hsame (u : Term) (hu : EndsWithin depth u) :
        typeOfDepth (depth + 1) u = typeOfDepth depth u := (ih hu).1
    exact ⟨EndsWith.typeOfWith_eq h hsame, EndsWith.mono h hsame fun u hu => (ih hu).2⟩

/-- A typing that ends is the same at every greater depth. -/
theorem EndsWithin.typeOfDepth_eq (h : EndsWithin depth t) (hle : depth ≤ depth') :
    typeOfDepth depth' t = typeOfDepth depth t ∧ EndsWithin depth' t := by
  induction hle with
  | refl => exact ⟨rfl, h⟩
  | step _ ih =>
    obtain ⟨hsame, hends⟩ := ih.2.succ
    exact ⟨hsame.trans ih.1, hends⟩

/-- The depth at which a term is typed is enough. -/
def TypingEnds (t : Term) : Prop := EndsWithin (Nat.pow 2 t.fullSize) t

theorem TypingEnds.typeOf_eq (h : t.TypingEnds) (hle : Nat.pow 2 t.fullSize ≤ depth) :
    typeOfDepth depth t = t.typeOf :=
  (EndsWithin.typeOfDepth_eq h hle).1

/-- The type of a cast is the type of the type of what is inside it. -/
theorem typeOf_cast (hcast : (cast t).TypingEnds) (ht : t.TypingEnds)
    (htype : ∀ T, t.typeOf = .ok T → T.TypingEnds) : (cast t).typeOf = t.typeOf >>= typeOf := by
  have hunfold (depth : Nat) (hle : Nat.pow 2 (cast t).fullSize ≤ depth)
      (hle' : Nat.pow 2 t.fullSize ≤ depth) :
      (cast t).typeOf = t.typeOf >>= typeOfDepth depth := by
    rw [← hcast.typeOf_eq (Nat.le_succ_of_le hle), ← ht.typeOf_eq (Nat.le_succ_of_le hle')]
    rfl
  cases hT : t.typeOf with
  | error f =>
    rw [hunfold _ (Nat.le_add_right _ _) (Nat.le_add_left _ _), hT]
    rfl
  | ok T =>
    -- Deep enough for all three of them.
    have hle := Nat.le_add_right (Nat.pow 2 (cast t).fullSize + Nat.pow 2 t.fullSize)
      (Nat.pow 2 T.fullSize)
    rw [hunfold _ (Nat.le_trans (Nat.le_add_right _ _) hle)
      (Nat.le_trans (Nat.le_add_left _ _) hle), hT]
    exact (htype T hT).typeOf_eq (Nat.le_add_left _ _)

/-! ### Casts outside arguments and types -/

/-- There is no cast in a term, nor in the types that it carries. -/
def NoCasts : Term → Prop
  | tau => True
  | atom _ => True
  | var _ type => NoCasts type
  | param _ type => NoCasts type
  | function _ domain body => NoCasts domain ∧ NoCasts body
  | apply head arg => NoCasts head ∧ NoCasts arg
  | projection inner => NoCasts inner
  | cast _ => False

def OuterCasts : Term → Prop
  | tau => True
  | atom _ => True
  | var _ type => NoCasts type
  | param _ type => NoCasts type
  | function _ domain body => NoCasts domain ∧ OuterCasts body
  | apply head arg => OuterCasts head ∧ NoCasts arg
  | projection inner => OuterCasts inner
  | cast inner => OuterCasts inner

theorem NoCasts.outer (h : t.NoCasts) : t.OuterCasts := by
  induction t with
  | tau | atom => trivial
  | var | param => exact h
  | function q domain body ihd ihb => exact ⟨h.1, ihb h.2⟩
  | apply head arg ihh iha => exact ⟨ihh h.1, h.2⟩
  | projection inner ih => exact ih h
  | cast => exact h.elim

theorem NoCasts.unproject (h : t.NoCasts) : t.unproject.NoCasts := by
  induction t with
  | tau | atom => trivial
  | var => exact h
  | param q type ih => exact ih h
  | function q domain body ihd ihb => exact ⟨ihd h.1, ihb h.2⟩
  | apply head arg ihh iha => exact ⟨ihh h.1, iha h.2⟩
  | projection inner ih => exact ih h
  | cast => exact h.elim

theorem NoCasts.replaceParam (h : t.NoCasts) (hi : image.NoCasts) :
    (t.replaceParam p image).NoCasts := by
  induction t with
  | tau | atom => trivial
  | var => exact h
  | param q type ih =>
    rw [Term.replaceParam]
    split
    · exact hi
    · exact ih h
  | function q domain body ihd ihb =>
    refine ⟨ihd h.1, ?_⟩
    split
    · exact h.2
    · exact ihb h.2
  | apply head arg ihh iha => exact ⟨ihh h.1, iha h.2⟩
  | projection inner ih => exact ih h
  | cast => exact h.elim

/-- Whatever is in its casts, the type of such a term has none. -/
theorem OuterCasts.typeOfWith (h : t.OuterCasts)
    (hagain : ∀ u U, u.NoCasts → again u = .ok U → U.NoCasts)
    (hT : typeOfWith again t = .ok T) : T.NoCasts := by
  induction t generalizing T with
  | tau => cases hT
  | atom =>
    cases hT
    trivial
  | var | param =>
    cases hT
    exact h
  | function q domain body ihd ihb =>
    obtain ⟨type, hbody, rfl⟩ := typeOfWith_function_ok hT
    exact ⟨h.1, ihb h.2 hbody⟩
  | apply head arg ihh iha =>
    obtain ⟨type, q, domain, body, found, hhead, hu, -, -, rfl⟩ := typeOfWith_apply_ok hT
    have htype := (ihh h.1 hhead).unproject
    rw [hu] at htype
    exact htype.2.replaceParam h.2
  | projection inner ih => exact ih h hT
  | cast inner ih =>
    rw [Term.typeOfWith] at hT
    cases hinner : Term.typeOfWith again inner with
    | error f =>
      rw [hinner] at hT
      cases hT
    | ok U =>
      rw [hinner] at hT
      exact hagain U T (ih h hinner) hT

theorem NoCasts.typeOfDepth {U : Term} (h : t.NoCasts) (hU : typeOfDepth depth t = .ok U) :
    U.NoCasts := by
  induction depth generalizing t U with
  | zero => cases hU
  | succ depth ih => exact h.outer.typeOfWith (fun _ _ hu hU => ih hu hU) hU

theorem OuterCasts.typeOfDepth {U : Term} (h : t.OuterCasts)
    (hU : typeOfDepth depth t = .ok U) : U.NoCasts := by
  cases depth with
  | zero => cases hU
  | succ depth => exact h.typeOfWith (fun _ _ hu hU => hu.typeOfDepth hU) hU

theorem NoCasts.castFree (h : t.NoCasts) : t.castFree = true := by
  induction t with
  | tau | atom | var => rfl
  | param q type ih => exact ih h
  | function q domain body ihd ihb => rw [Term.castFree, ihd h.1, ihb h.2, Bool.and_self]
  | apply head arg ihh iha => rw [Term.castFree, ihh h.1, iha h.2, Bool.and_self]
  | projection inner ih => exact ih h
  | cast => exact h.elim

theorem OuterCasts.endsWithin (h : t.OuterCasts) : EndsWithin 2 t := by
  induction t with
  | tau | atom | var | param => trivial
  | function q domain body ihd ihb => exact ihb h.2
  | apply head arg ihh iha => exact ⟨ihh h.1, endsWith_of_castFree h.2.castFree⟩
  | projection inner ih => exact ih h
  | cast inner ih =>
    have hinner : inner.OuterCasts := h
    refine ⟨ih h, fun T hT => ?_⟩
    have htype : Term.typeOfDepth 2 inner = .ok T := hT
    exact endsWith_of_castFree (hinner.typeOfDepth htype).castFree

theorem OuterCasts.typingEnds (h : t.OuterCasts) : t.TypingEnds := by
  have hsize : 1 ≤ t.fullSize := by
    cases t <;> simp only [fullSize] <;> omega
  have hdepth : 2 ^ 1 ≤ 2 ^ t.fullSize := Nat.pow_le_pow_right (by decide) hsize
  exact (h.endsWithin.typeOfDepth_eq hdepth).2

theorem OuterCasts.typeOf_cast (h : t.OuterCasts) : (cast t).typeOf = t.typeOf >>= typeOf :=
  have hcast : (cast t).OuterCasts := h
  Term.typeOf_cast hcast.typingEnds h.typingEnds fun _ hT => (h.typeOfDepth hT).outer.typingEnds

/-! ### A typing without end -/

def thrice (result : Term) : Term :=
  function ⟨0⟩ (atom "Z") (function ⟨1⟩ (atom "Z") (function ⟨2⟩ (atom "Z") result))

/-- A call with three arguments, each in place of a parameter of the type that the head asks for. -/
def smuggle (n : Nat) (kind head first second : Term) : Term :=
  let call := apply (function ⟨n⟩ (thrice tau) (apply head (param ⟨n⟩ (atom "Z")))) kind
  let call := apply (function ⟨n + 1⟩ kind (apply call (param ⟨n + 1⟩ (atom "Z")))) first
  apply (function ⟨n + 2⟩ kind (apply call (param ⟨n + 2⟩ (atom "Z")))) second

/-- A type of functions that, given their type and two of them, call the second of these. -/
def selfish (n : Nat) : Term :=
  let kind := param ⟨0⟩ (thrice tau)
  thrice (cast (smuggle n kind (param ⟨2⟩ (thrice (atom "Z"))) (param ⟨2⟩ kind) (param ⟨1⟩ kind)))

def restart (n m : Nat) : Term :=
  smuggle n (selfish 10) (param ⟨m + 3⟩ (selfish m)) (param ⟨m + 3⟩ (selfish m))
    (param ⟨n + 3⟩ (selfish n))

/-- Two terms each have a cast of the other as their type, so that typing a cast never ends. -/
theorem not_endsWithin_restart (depth : Nat) :
    ¬EndsWithin depth (cast (restart 10 20)) ∧ ¬EndsWithin depth (cast (restart 20 10)) := by
  induction depth with
  | zero => exact ⟨id, id⟩
  | succ depth ih =>
    cases depth with
    | zero =>
      -- At depth one the cast inside the type that is passed on is not typed.
      exact ⟨fun h => h.1.1.1.1.1.2.2 (atom "Z") rfl, fun h => h.1.1.1.1.1.2.2 (atom "Z") rfl⟩
    | succ depth => exact ⟨fun h => ih.2 (h.2 _ rfl), fun h => ih.1 (h.2 _ rfl)⟩

end Term

end StatementGraph
