import StatementGraph.Id

namespace StatementGraph

namespace StatementId

variable {x : StatementId}

theorem ofNat?_eq_some {n : Nat} : ofNat? n = some x ↔ x.raw = n := by
  rw [ofNat?]
  split
  case isTrue h =>
    rw [Option.some.injEq]
    exact ⟨fun hx => hx ▸ rfl, fun hx => eq_of_raw hx.symm⟩
  case isFalse h =>
    constructor
    · intro hx
      cases hx
    · rintro rfl
      exact absurd ⟨x.pos, x.bounded⟩ h

def last : StatementId := ⟨UInt64.size - 1, by decide, by decide⟩

theorem not_last_lt (x : StatementId) : ¬last < x := by
  have hx := x.bounded
  change ¬UInt64.size - 1 < x.raw
  omega

theorem raw_succ_lt (h : x ≠ last) : x.raw + 1 < UInt64.size := by
  have hx := x.bounded
  have hne : x.raw ≠ UInt64.size - 1 := fun hraw => h (eq_of_raw hraw)
  omega

end StatementId

namespace Allocator

variable {a a' : Allocator} {x : StatementId}

/-- The counter will not hand out an id that it is past. At zero it hands out nothing. -/
def Past (a : Allocator) (x : StatementId) : Prop := a.next = 0 ∨ x.raw < a.next.toNat

theorem Past.of_le (hle : a.next.toNat ≤ a'.next.toNat) (hnext : a.next ≠ 0) (h : a.Past x) :
    a'.Past x :=
  Or.inr (Nat.lt_of_lt_of_le (h.resolve_left hnext) hle)

theorem next_ne_zero_of_le (hle : a.next.toNat ≤ a'.next.toNat) (hnext : a.next ≠ 0) :
    a'.next ≠ 0 := by
  intro hzero
  rw [hzero, UInt64.toNat_zero] at hle
  exact hnext (UInt64.toNat_inj.1 (Nat.le_zero.1 hle))

theorem toNat_succ {n : UInt64} (h : n.toNat + 1 < UInt64.size) : (n + 1).toNat = n.toNat + 1 := by
  rw [UInt64.toNat_add]
  exact Nat.mod_eq_of_lt h

theorem succ_eq_zero {n : UInt64} (h : n.toNat + 1 = UInt64.size) : n + 1 = 0 := by
  apply UInt64.toNat_inj.1
  rw [UInt64.toNat_add]
  change (n.toNat + 1) % UInt64.size = 0
  rw [h, Nat.mod_self]

theorem take_of_ne_zero (h : a.next ≠ 0) :
    ∃ x : StatementId, x.raw = a.next.toNat ∧ a.take = (some x, ⟨a.next + 1⟩) := by
  have hpos : 0 < a.next.toNat := Nat.pos_of_ne_zero fun hzero => h (UInt64.toNat_inj.1 hzero)
  let x : StatementId := ⟨a.next.toNat, hpos, a.next.toNat_lt_size⟩
  have hx : StatementId.ofNat? a.next.toNat = some x := StatementId.ofNat?_eq_some.2 rfl
  exact ⟨x, rfl, by rw [take, hx]⟩

theorem take_some (h : a.take = (some x, a')) :
    (∀ y, a.Past y → y < x ∧ a'.Past y) ∧ a'.Past x := by
  rw [take, Prod.mk.injEq, StatementId.ofNat?_eq_some] at h
  obtain ⟨hx, rfl⟩ := h
  have hzero : a.next ≠ 0 := by
    intro hzero
    have hpos := x.pos
    rw [hx, hzero] at hpos
    exact Nat.lt_irrefl 0 hpos
  have hpast (y : StatementId) (hy : y.raw ≤ a.next.toNat) : Past ⟨a.next + 1⟩ y := by
    by_cases hlast : a.next.toNat + 1 = UInt64.size
    · exact Or.inl (succ_eq_zero hlast)
    · have hlt := a.next.toNat_lt_size
      right
      rw [toNat_succ (by omega)]
      omega
  refine ⟨fun y hy => ?_, hpast x (Nat.le_of_eq hx)⟩
  have hlt := hy.resolve_left hzero
  exact ⟨StatementId.lt_iff.2 (hx ▸ hlt), hpast y (Nat.le_of_lt hlt)⟩

theorem reserve_eq_none : a.reserve x = none ↔ x = .last := by
  rw [reserve]
  split
  case isTrue h =>
    constructor
    · intro hnone
      cases hnone
    · rintro rfl
      exact absurd h (by decide)
  case isFalse h =>
    exact ⟨fun _ => Decidable.byContradiction fun hne => h (StatementId.raw_succ_lt hne),
      fun _ => rfl⟩

theorem reserve_some (h : a.reserve x = some a') :
    a.next.toNat ≤ a'.next.toNat ∧ x.raw < a'.next.toNat := by
  rw [reserve] at h
  split at h
  case isTrue hroom =>
    have hafter : (UInt64.ofNat (x.raw + 1)).toNat = x.raw + 1 := UInt64.toNat_ofNat_of_lt hroom
    cases h
    split
    case isTrue hlt =>
      refine ⟨Nat.le_of_lt hlt, ?_⟩
      rw [hafter]
      exact Nat.lt_succ_self _
    case isFalse hge =>
      have hle : (UInt64.ofNat (x.raw + 1)).toNat ≤ a.next.toNat := Nat.le_of_not_lt hge
      rw [hafter] at hle
      exact ⟨Nat.le_refl _, hle⟩
  case isFalse => cases h

theorem reserve_of_past (h : a.Past x) (hnext : a.next ≠ 0) : a.reserve x = some a := by
  have hx := h.resolve_left hnext
  have hroom : x.raw + 1 < UInt64.size := Nat.lt_of_le_of_lt hx a.next.toNat_lt_size
  have hafter : (UInt64.ofNat (x.raw + 1)).toNat = x.raw + 1 := UInt64.toNat_ofNat_of_lt hroom
  rw [reserve, if_pos hroom]
  dsimp only
  rw [if_neg]
  rw [UInt64.lt_iff_toNat_lt]
  omega

/-! ### Runs of calls -/

inductive Call where
  | take
  | reserve (id : StatementId)
deriving DecidableEq

/-- A call with what became of it: a request with its answer, or a reservation. -/
inductive Entry where
  | taken (answer : Option StatementId)
  | reserved (id : StatementId)
deriving DecidableEq

def Entry.id? : Entry → Option StatementId
  | taken answer => answer
  | reserved id => some id

/-- Make a call. A reservation of the last id does not come back. -/
def Call.perform : Call → Allocator → Option (Entry × Allocator)
  | take, a => some (.taken a.take.1, a.take.2)
  | reserve id, a => (a.reserve id).map fun a' => (.reserved id, a')

/-- What becomes of a sequence of calls. It breaks off at a call that does not come back. -/
def log (a : Allocator) : List Call → List Entry
  | [] => []
  | call :: calls =>
    match call.perform a with
    | some (entry, a') => entry :: a'.log calls
    | none => []

/-- What a later entry hands out is above what an earlier one hands out or reserves. -/
def Rises (earlier : Entry) : Entry → Prop
  | .taken (some id) => ∀ old ∈ earlier.id?, old < id
  | .taken none => True
  | .reserved _ => True

instance decidableRises (earlier : Entry) : (later : Entry) → Decidable (Rises earlier later)
  | .taken (some id) => inferInstanceAs (Decidable (∀ old ∈ earlier.id?, old < id))
  | .taken none => .isTrue trivial
  | .reserved _ => .isTrue trivial

/-- The counter has not run out, and is past all that was handed out or reserved. -/
structure Ahead (a : Allocator) (before : List Entry) : Prop where
  left : a.next ≠ 0
  past : ∀ e ∈ before, ∀ old ∈ e.id?, a.Past old

variable {before earlier later : List Entry} {calls : List Call} {answer : Option StatementId}

theorem ahead_startingFrom (start : UInt64) : (startingFrom start).Ahead [] where
  left := by
    rw [startingFrom]
    split
    · decide
    · assumption
  past e he := by cases he

theorem Ahead.concat {e : Entry} (h : a.Ahead before) (hleft : a'.next ≠ 0)
    (hkept : ∀ old, a.Past old → a'.Past old) (hnew : ∀ x ∈ e.id?, a'.Past x) :
    a'.Ahead (before ++ [e]) where
  left := hleft
  past e' he' old hold := by
    rcases List.mem_append.1 he' with hbefore | hlast
    · exact hkept old (h.past e' hbefore old hold)
    · cases List.mem_singleton.1 hlast
      exact hnew old hold

theorem Ahead.taken (h : a.Ahead before) :
    ∃ id, a.take.1 = some id ∧ (∀ e ∈ before, Rises e (.taken (some id))) ∧
      (id ≠ .last → a.take.2.Ahead (before ++ [.taken (some id)])) := by
  obtain ⟨id, hid, htake⟩ := take_of_ne_zero h.left
  obtain ⟨hbelow, hpast⟩ := take_some htake
  rw [htake]
  refine ⟨id, rfl, fun e he old hold => (hbelow old (h.past e he old hold)).1, fun hne => ?_⟩
  refine h.concat (fun hzero => ?_) (fun old hold => (hbelow old hold).2) fun x hx => ?_
  · have hsucc : (a.next + 1).toNat = a.next.toNat + 1 :=
      toNat_succ (hid ▸ StatementId.raw_succ_lt hne)
    change a.next + 1 = 0 at hzero
    rw [hzero] at hsucc
    cases hsucc
  · cases hx
    exact hpast

theorem Ahead.reserved (h : a.Ahead before) (hreserve : a.reserve x = some a') :
    a'.Ahead (before ++ [.reserved x]) := by
  obtain ⟨hle, hpast⟩ := reserve_some hreserve
  refine h.concat (next_ne_zero_of_le hle h.left) (fun old hold => hold.of_le hle h.left) ?_
  intro y hy
  cases hy
  exact Or.inr hpast

theorem Ahead.perform {call : Call} {entry : Entry} (h : a.Ahead before)
    (hcall : call.perform a = some (entry, a')) :
    (∀ answer, entry = .taken answer →
      ∃ id, answer = some id ∧ ∀ e ∈ before, Rises e (.taken (some id))) ∧
      (entry ≠ .taken (some .last) → a'.Ahead (before ++ [entry])) := by
  cases call with
  | take =>
    obtain ⟨id, hid, hrises, hahead⟩ := h.taken
    rw [Call.perform, hid] at hcall
    cases hcall
    refine ⟨fun answer hanswer => ?_, fun hne => hahead fun hlast => hne (hlast ▸ rfl)⟩
    cases hanswer
    exact ⟨id, rfl, hrises⟩
  | reserve id =>
    obtain ⟨b, hb, hentry⟩ := Option.map_eq_some_iff.1 hcall
    cases hentry
    refine ⟨fun answer hanswer => ?_, fun _ => h.reserved hb⟩
    cases hanswer

/-- A request in a run of calls, made while the last id is free. -/
theorem Ahead.log (h : a.Ahead before) (hlog : a.log calls = earlier ++ .taken answer :: later)
    (hfree : ∀ e ∈ earlier, e ≠ .taken (some .last)) :
    ∃ id, answer = some id ∧ ∀ e ∈ before ++ earlier, Rises e (.taken (some id)) := by
  -- the first entry of the run moves over to what was before
  induction calls generalizing a before earlier with
  | nil => simp [Allocator.log] at hlog
  | cons call calls ih =>
    rw [Allocator.log] at hlog
    cases hcall : call.perform a with
    | none => simp [hcall] at hlog
    | some made =>
      obtain ⟨entry, a'⟩ := made
      rw [hcall] at hlog
      obtain ⟨hanswered, hahead⟩ := h.perform hcall
      cases earlier with
      | nil =>
        obtain ⟨hentry, -⟩ := List.cons.inj hlog
        rw [List.append_nil]
        exact hanswered answer hentry
      | cons e earlier =>
        obtain ⟨rfl, hrest⟩ := List.cons.inj hlog
        rw [List.forall_mem_cons] at hfree
        have hall := ih (hahead hfree.1) hrest hfree.2
        rwa [List.append_assoc] at hall

/-- A run breaks off at the first reservation of the last id, and nowhere else. -/
theorem length_log : (a.log calls).length = (calls.takeWhile (· ≠ .reserve .last)).length := by
  induction calls generalizing a with
  | nil => rfl
  | cons call calls ih =>
    rw [Allocator.log]
    cases call with
    | take => simpa [Call.perform] using ih
    | reserve id =>
      rw [Call.perform]
      by_cases hlast : id = .last
      · rw [reserve_eq_none.2 hlast, hlast]
        simp
      · obtain ⟨b, hb⟩ := Option.ne_none_iff_exists'.1 (mt reserve_eq_none.1 hlast)
        rw [hb]
        simpa [hlast] using ih

/-- Ids rise throughout a run in which no call but the final one hands out the last id. -/
theorem log_rises (start : UInt64) (calls : List Call) :
    let log := (startingFrom start).log calls
    (∀ earlier answer later, log = earlier ++ .taken answer :: later →
      ((∃ id, answer = some id ∧ ∀ e ∈ earlier, Rises e (.taken (some id))) ↔
        ∀ e ∈ earlier, e ≠ .taken (some .last))) ∧
      ((∀ e ∈ log.dropLast, e ≠ .taken (some .last)) → log.Pairwise Rises) ∧
      log.length = (calls.takeWhile (· ≠ .reserve .last)).length := by
  intro log
  have hahead := ahead_startingFrom start
  refine ⟨fun earlier answer later hlog => ⟨?_, fun hfree => hahead.log hlog hfree⟩,
    fun hfree => ?_,
    length_log⟩
  · rintro ⟨id, -, hrises⟩ e he rfl
    exact StatementId.not_last_lt id (hrises _ he .last rfl)
  · -- the final entry is never among those before a request
    rw [List.pairwise_iff_forall_sublist]
    intro e e' hsublist
    obtain ⟨front, back, hlog, hfront, hback⟩ := List.cons_sublist_iff.1 hsublist
    obtain ⟨between, later, rfl⟩ := List.append_of_mem (List.singleton_sublist.1 hback)
    rw [← List.append_assoc] at hlog
    rw [hlog, List.dropLast_append_cons] at hfree
    cases e' with
    | taken answer =>
      obtain ⟨id, rfl, hrises⟩ := hahead.log hlog fun d hd => hfree d (List.mem_append_left _ hd)
      exact hrises e (List.mem_append_left between hfront)
    | reserved id => trivial

/-- A request, a reservation of the last id but one, and another request. -/
def finalCalls : List Call :=
  [.take, .reserve ⟨UInt64.size - 2, by decide, by decide⟩, .take]

theorem finalCalls_rise : let log := (startingFrom 18446744073709551613).log finalCalls
    (∀ e ∈ log.dropLast, e ≠ .taken (some .last)) ∧ log.getLast? = some (.taken (some .last)) ∧
      (∃ id, some StatementId.last = some id ∧
        ∀ e ∈ log.dropLast, Rises e (.taken (some id))) ∧ log.Pairwise Rises := by
  intro log
  have hlog : log = log.dropLast ++ .taken (some .last) :: [] := by decide
  have hfree : ∀ e ∈ log.dropLast, e ≠ .taken (some .last) := by decide
  have hrises := log_rises 18446744073709551613 finalCalls
  exact ⟨hfree, by decide, (hrises.1 _ _ _ hlog).2 hfree, hrises.2.1 hfree⟩

theorem ids_reissued :
    ¬((startingFrom 18446744073709551615).log [.take, .take, .take]).Pairwise Rises ∧
      ¬((startingFrom 18446744073709551615).log
        [.take, .reserve ⟨5, by decide, by decide⟩, .take]).Pairwise Rises := by
  decide

end Allocator

end StatementGraph
