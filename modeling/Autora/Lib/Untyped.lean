import Mathlib.Data.Rat.Floor

/-! Values as a JSON reader hands them to a dynamically typed program, and the
operations on them with the errors they raise. -/

namespace Untyped

/-- A string's code points; a lone surrogate is one of them. -/
abbrev Str := List Nat

/-- Named, so that every test of membership among texts uses this one proof. -/
instance : LawfulBEq Str := inferInstance

def lit (s : String) : Str := s.toList.map Char.toNat

def isSurrogate (c : Nat) : Bool := 0xD800 ≤ c && c ≤ 0xDFFF

inductive Value where
  | none
  | bool (b : Bool)
  | int (n : Int)
  | float (x : Float)
  | str (s : Str)
  | list (items : List Value)
  | dict (entries : List (Str × Value))

inductive Error where
  | attributeError | keyError | indexError | typeError | valueError | overflowError
  | recursionError | validationError
  deriving DecidableEq, Repr

namespace Value

def truthy : Value → Bool
  | none => false
  | bool b => b
  | int n => n ≠ 0
  | float x => x != 0
  | str s => !s.isEmpty
  | list items => !items.isEmpty
  | dict entries => !entries.isEmpty

-- `a or b`
def orElse (a b : Value) : Value := if a.truthy then a else b

-- `value.get(key, default)`
def get (v : Value) (key : Str) (default : Value := none) : Except Error Value :=
  match v with
  | dict entries => .ok ((entries.lookup key).getD default)
  | _ => .error .attributeError

-- `value[key]` for a string key
def item (v : Value) (key : Str) : Except Error Value :=
  match v with
  | dict entries => match entries.lookup key with
    | some x => .ok x
    | Option.none => .error .keyError
  | _ => .error .typeError

-- `value[0]`
def first : Value → Except Error Value
  | list (x :: _) => .ok x
  | list [] => .error .indexError
  | str (c :: _) => .ok (str [c])
  | str [] => .error .indexError
  | dict _ => .error .keyError
  | _ => .error .typeError

-- `for x in value`
def iter : Value → Except Error (List Value)
  | list items => .ok items
  | dict entries => .ok (entries.map fun e => str e.1)
  | str s => .ok (s.map fun c => str [c])
  | _ => .error .typeError

def isDict : Value → Bool
  | dict _ => true
  | _ => false

-- what `value.get(key, default)` gives where there is a `get`
def field (v : Value) (key : Str) (default : Value := none) : Value :=
  match v with
  | dict entries => (entries.lookup key).getD default
  | _ => none

def hashable : Value → Bool
  | list _ | dict _ => false
  | _ => true

/-- The two kinds of number; a truth value counts as one. -/
inductive Number where
  | int (n : Int)
  | float (x : Float)

def number? : Value → Option Number
  | bool b => some (.int (if b then 1 else 0))
  | int n => some (.int n)
  | float x => some (.float x)
  | _ => Option.none

namespace Number

def ofFloat (x : Float) : Except Error Number := .ok (.float x)

-- an integer too large for a float cannot be one
def toFloat : Number → Except Error Float
  | int n => if (Float.ofInt n).isInf then .error .overflowError else .ok (Float.ofInt n)
  | float x => .ok x

def arith (onInt : Int → Int → Int) (onFloat : Float → Float → Float) :
    Number → Number → Except Error Number
  | int a, int b => .ok (int (onInt a b))
  | a, b => do
    let x ← a.toFloat
    let y ← b.toFloat
    .ok (float (onFloat x y))

def sub : Number → Number → Except Error Number := arith (· - ·) (· - ·)

def add : Number → Number → Except Error Number := arith (· + ·) (· + ·)

-- `max(n, 0)`: what does not compare stays
def max0 : Number → Number
  | int n => int (max n 0)
  | float x => if x < 0 then int 0 else float x

end Number

-- the operand of an arithmetic operator
def operand (v : Value) : Except Error Number :=
  match v.number? with
  | some n => .ok n
  | Option.none => .error .typeError

end Value

/-! Comparisons; `ratio` is a finite float as a fraction. -/

namespace Value

variable (ratio : Float → Option Rat)

namespace Number

def eq : Number → Number → Bool
  | int a, int b => a = b
  | float x, float y => x == y
  | int a, float x | float x, int a => ratio x = some (a : Rat)

def lt : Number → Number → Bool
  | int a, int b => a < b
  | float x, float y => x < y
  | int a, float x => match ratio x with
    | some q => (a : Rat) < q
    | Option.none => 0 < x
  | float x, int a => match ratio x with
    | some q => q < (a : Rat)
    | Option.none => x < 0

end Number

mutual

def eq : Value → Value → Bool
  | none, none => true
  | str a, str b => a = b
  | list xs, list ys => eqItems xs ys
  | dict xs, dict ys => xs.length = ys.length && eqEntries xs ys
  | a, b => match a.number?, b.number? with
    | some m, some n => m.eq ratio n
    | _, _ => false

def eqItems : List Value → List Value → Bool
  | [], [] => true
  | x :: xs, y :: ys => eq x y && eqItems xs ys
  | _, _ => false

def eqEntries : List (Str × Value) → List (Str × Value) → Bool
  | [], _ => true
  | (key, x) :: rest, ys => (match ys.lookup key with
    | some y => eq x y
    | Option.none => false) && eqEntries rest ys

end

mutual

-- `a < b`
def lt : Value → Value → Except Error Bool
  | str a, str b => .ok (decide (a < b))
  | list xs, list ys => ltItems xs ys
  | a, b => match a.number?, b.number? with
    | some m, some n => .ok (m.lt ratio n)
    | _, _ => .error .typeError

-- at the first items that differ
def ltItems : List Value → List Value → Except Error Bool
  | [], ys => .ok !ys.isEmpty
  | _ :: _, [] => .ok false
  | x :: xs, y :: ys => if eq ratio x y = true then ltItems xs ys else lt x y

end

-- into rows sorted so far, the last one first
def insertRow (x : Value × Value) : List (Value × Value) → Except Error (List (Value × Value))
  | [] => .ok [x]
  | y :: ys => do
    let before ← lt ratio x.1 y.1
    if before = true then do
      let rest ← insertRow x ys
      pure (y :: rest)
    else pure (x :: y :: ys)

/-- `sorted`, of values with their keys: stable, and every key it compares has to compare. -/
def sortRows (rows : List (Value × Value)) : Except Error (List (Value × Value)) := do
  let sorted ← rows.foldlM (fun sorted x => insertRow ratio x sorted) []
  pure sorted.reverse

theorem insertRow_perm {x : Value × Value} {rows rows' : List (Value × Value)}
    (h : insertRow ratio x rows = .ok rows') : rows'.Perm (x :: rows) := by
  induction rows generalizing rows' with
  | nil =>
    cases h
    exact .refl _
  | cons y ys ih =>
    unfold insertRow at h
    cases hlt : lt ratio x.1 y.1 with
    | error e =>
      rw [hlt] at h
      cases h
    | ok before =>
      rw [hlt] at h
      cases before with
      | false =>
        cases h
        exact .refl _
      | true =>
        cases hrest : insertRow ratio x ys with
        | error e =>
          simp only [bind, Except.bind, hrest, if_true] at h
          cases h
        | ok rest =>
          simp only [bind, Except.bind, hrest, if_true, pure, Except.pure, Except.ok.injEq] at h
          rw [← h]
          exact ((ih hrest).cons y).trans (.swap x y ys)

theorem sortRows_perm {rows sorted : List (Value × Value)} (h : sortRows ratio rows = .ok sorted) :
    sorted.Perm rows := by
  have hfold : ∀ (rows start out : List (Value × Value)),
      rows.foldlM (fun sorted x => insertRow ratio x sorted) start = .ok out →
        out.Perm (start ++ rows) := by
    intro rows
    induction rows with
    | nil =>
      intro start out h
      cases h
      rw [List.append_nil]
    | cons x xs ih =>
      intro start out h
      rw [List.foldlM_cons] at h
      cases hinsert : insertRow ratio x start with
      | error e =>
        rw [hinsert] at h
        cases h
      | ok next =>
        rw [hinsert] at h
        have hperm := insertRow_perm ratio hinsert
        have hmiddle : (x :: start ++ xs).Perm (start ++ x :: xs) := List.perm_middle.symm
        exact (ih next out h).trans ((hperm.append_right xs).trans hmiddle)
  unfold sortRows at h
  cases hall : rows.foldlM (fun sorted x => insertRow ratio x sorted) [] with
  | error e =>
    rw [hall] at h
    cases h
  | ok out =>
    rw [hall] at h
    cases h
    exact (List.reverse_perm out).trans (hfold rows [] out hall)

end Value

/-! When an operation answers. -/

/-- The computation gives a result. -/
def Succeeds {ε α : Type} (x : Except ε α) : Prop := ∃ a, x = .ok a

section Succeeds

variable {ε α β : Type}

@[simp] theorem succeeds_ok (a : α) : Succeeds (.ok a : Except ε α) := ⟨a, rfl⟩

@[simp] theorem not_succeeds_error (e : ε) : ¬ Succeeds (.error e : Except ε α) := by
  rintro ⟨a, h⟩
  cases h

@[simp] theorem succeeds_pure (a : α) : Succeeds (pure a : Except ε α) := ⟨a, rfl⟩

theorem succeeds_bind {x : Except ε α} {f : α → Except ε β} :
    Succeeds (x >>= f) ↔ ∃ a, x = .ok a ∧ Succeeds (f a) := by
  cases x with
  | error e => simp [Succeeds, bind, Except.bind]
  | ok a => simp [Succeeds, bind, Except.bind]

/-- The rest succeeds or not whatever the first part gives. -/
theorem succeeds_bind_iff {x : Except ε α} {f : α → Except ε β} {P : Prop}
    (h : ∀ a, x = .ok a → (Succeeds (f a) ↔ P)) : Succeeds (x >>= f) ↔ Succeeds x ∧ P := by
  rw [succeeds_bind]
  constructor
  · rintro ⟨a, ha, hf⟩
    exact ⟨⟨a, ha⟩, (h a ha).mp hf⟩
  · rintro ⟨⟨a, ha⟩, hP⟩
    exact ⟨a, ha, (h a ha).mpr hP⟩

theorem succeeds_bind_pure {x : Except ε α} {f : α → β} :
    Succeeds (x >>= fun a => pure (f a)) ↔ Succeeds x := by
  rw [succeeds_bind_iff (P := True) fun a _ => iff_of_true (succeeds_pure _) trivial, and_true]

theorem succeeds_mapM {f : α → Except ε β} {xs : List α} :
    Succeeds (xs.mapM f) ↔ ∀ x ∈ xs, Succeeds (f x) := by
  induction xs with
  | nil => simp
  | cons x xs ih =>
    simp only [List.mapM_cons, succeeds_bind, succeeds_pure, and_true, List.forall_mem_cons]
    constructor
    · rintro ⟨b, hb, bs, hbs⟩
      exact ⟨⟨b, hb⟩, ih.mp ⟨bs, hbs⟩⟩
    · rintro ⟨⟨b, hb⟩, hrest⟩
      obtain ⟨bs, hbs⟩ := ih.mpr hrest
      exact ⟨b, hb, bs, hbs⟩

end Succeeds

open Value

theorem get_ok_iff {v x : Value} {key : Str} {default : Value} :
    v.get key default = .ok x ↔ v.isDict = true ∧ x = v.field key default := by
  cases v with
  | dict entries =>
    simp only [Value.get, isDict, field, Except.ok.injEq, true_and]
    exact eq_comm
  | _ => simp [Value.get, isDict]

theorem get_error {v : Value} {key : Str} {default : Value} (h : v.isDict = false) :
    v.get key default = .error .attributeError := by
  cases v <;> simp_all [Value.get, isDict]

/-- After a `get`, the rest runs on the field. -/
theorem succeeds_get_bind {β : Type} {v : Value} {key : Str} {default : Value}
    {f : Value → Except Error β} :
    Succeeds (v.get key default >>= f) ↔ v.isDict = true ∧ Succeeds (f (v.field key default)) := by
  simp only [succeeds_bind, get_ok_iff]
  constructor
  · rintro ⟨x, ⟨hdict, rfl⟩, h⟩
    exact ⟨hdict, h⟩
  · rintro ⟨hdict, h⟩
    exact ⟨_, ⟨hdict, rfl⟩, h⟩

theorem item_error {v : Value} {key : Str} {e : Error} (h : v.item key = .error e) :
    e = .keyError ∨ e = .typeError := by
  cases v with
  | dict entries =>
    simp only [Value.item] at h
    cases hlookup : entries.lookup key with
    | some x =>
      rw [hlookup] at h
      cases h
    | none =>
      rw [hlookup] at h
      cases h
      exact .inl rfl
  | _ =>
    cases h
    exact .inr rfl

theorem first_error {v : Value} {e : Error} (h : v.first = .error e) :
    e = .keyError ∨ e = .indexError ∨ e = .typeError := by
  cases v with
  | list items =>
    cases items with
    | nil =>
      cases h
      exact .inr (.inl rfl)
    | cons x xs => cases h
  | str s =>
    cases s with
    | nil =>
      cases h
      exact .inr (.inl rfl)
    | cons c cs => cases h
  | dict entries =>
    cases h
    exact .inl rfl
  | _ =>
    cases h
    exact .inr (.inr rfl)

end Untyped
