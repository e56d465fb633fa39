/-
Module: LightClient.Checked
Purpose: Computations that may fail, and among them access to lists and arithmetic on words, which
  stop where there is no item or no number for the result; attempts, which may come to nothing
  besides.
Main exports: bind_eq_ok, bind_eq_error, mapM_eq_ok, Overrun, Checked.item, Checked.rest,
  Checked.range, Checked.slice, Checked.add, Checked.sub, Checked.mul, Checked.div, Attempt,
  Attempt.Yields
-/

namespace LightClient

/-! ### Computations that may fail -/

/-- A computation that may fail succeeds if its first part and then its second part do. -/
theorem bind_eq_ok {ε α β : Type} {x : Except ε α} {f : α → Except ε β} {b : β} :
    (x >>= f) = .ok b ↔ ∃ a, x = .ok a ∧ f a = .ok b := by
  cases x with
  | error e => simp [Bind.bind, Except.bind]
  | ok a => simp [Bind.bind, Except.bind]

/-- A computation that may fail does so if its first part does, or its second part after it. -/
theorem bind_eq_error {ε α β : Type} {x : Except ε α} {f : α → Except ε β} {e : ε} :
    (x >>= f) = .error e ↔ x = .error e ∨ ∃ a, x = .ok a ∧ f a = .error e := by
  cases x with
  | error e => simp [Bind.bind, Except.bind]
  | ok a => simp [Bind.bind, Except.bind]

/-- Parts that each succeed do so one after another. -/
theorem mapM_eq_ok {ε α β : Type} {f : α → Except ε β} {g : α → β} {xs : List α}
    (h : ∀ x ∈ xs, f x = .ok (g x)) : xs.mapM f = .ok (xs.map g) := by
  induction xs with
  | nil => rfl
  | cons x xs ih =>
    have hrest := ih fun y hy => h y (List.mem_cons_of_mem x hy)
    rw [List.mapM_cons, h x List.mem_cons_self, hrest]
    rfl

/-! ### Reaching beyond a list or a word -/

/-- Why a computation stops: it reaches beyond a list, or beyond the numbers of a word. -/
inductive Overrun where
  | item (index length : Nat)
  | range (first past length : Nat)
  | sum (a b : UInt64)
  | difference (a b : UInt64)
  | product (a b : UInt64)
  | quotient (a b : UInt64)
  deriving Repr, DecidableEq

namespace Checked

variable {α : Type}

def item (xs : List α) (index : Nat) : Except Overrun α :=
  match xs[index]? with
  | some x => .ok x
  | none => .error (.item index xs.length)

/-- The items from the given one on; the end of the list will do as well. -/
def rest (xs : List α) (first : Nat) : Except Overrun (List α) :=
  if first ≤ xs.length then .ok (xs.drop first)
  else .error (.range first xs.length xs.length)

/-- The items from the first to the last one. -/
def range (xs : List α) (first last : Nat) : Except Overrun (List α) :=
  if first ≤ last + 1 ∧ last < xs.length then .ok ((xs.take (last + 1)).drop first)
  else .error (.range first (last + 1) xs.length)

/-- The items from the first index on, up to the one before the last index. -/
def slice (xs : List α) (first past : Nat) : Except Overrun (List α) :=
  if first ≤ past ∧ past ≤ xs.length then .ok ((xs.take past).drop first)
  else .error (.range first past xs.length)

/-- The sum of two words, if it is a word. -/
def add (a b : UInt64) : Except Overrun UInt64 :=
  if a.toNat + b.toNat < UInt64.size then .ok (a + b) else .error (.sum a b)

def sub (a b : UInt64) : Except Overrun UInt64 :=
  if b ≤ a then .ok (a - b) else .error (.difference a b)

def mul (a b : UInt64) : Except Overrun UInt64 :=
  if a.toNat * b.toNat < UInt64.size then .ok (a * b) else .error (.product a b)

def div (a b : UInt64) : Except Overrun UInt64 :=
  if b = 0 then .error (.quotient a b) else .ok (a / b)

/-- An item is there at every index of the list. -/
theorem item_eq_ok {xs : List α} {index : Nat} {x : α} :
    item xs index = .ok x ↔ xs[index]? = some x := by
  unfold item
  cases xs[index]? <;> simp

/-- A list has a rest from each of its indices on, and from its end. -/
theorem rest_eq_ok {xs ys : List α} {first : Nat} :
    rest xs first = .ok ys ↔ first ≤ xs.length ∧ xs.drop first = ys := by
  unfold rest
  split <;> simp [*]

/-- The inclusive slice is there just when it does not run backwards and ends within the list. -/
theorem range_eq_ok {xs ys : List α} {first last : Nat} :
    range xs first last = .ok ys ↔
      (first ≤ last + 1 ∧ last < xs.length) ∧ (xs.take (last + 1)).drop first = ys := by
  unfold range
  split <;> simp [*]

/-- A slice lies within the list. -/
theorem slice_eq_ok {xs ys : List α} {first past : Nat} :
    slice xs first past = .ok ys ↔
      (first ≤ past ∧ past ≤ xs.length) ∧ (xs.take past).drop first = ys := by
  unfold slice
  split <;> simp [*]

/-- Words have a sum as long as it does not overflow. -/
theorem add_eq_ok {a b c : UInt64} :
    add a b = .ok c ↔ a.toNat + b.toNat < UInt64.size ∧ a + b = c := by
  unfold add
  split <;> simp [*]

/-- Words have a difference if the second is not larger. -/
theorem sub_eq_ok {a b c : UInt64} : sub a b = .ok c ↔ b ≤ a ∧ a - b = c := by
  unfold sub
  split <;> simp [*]

/-- A sum that fits a word is the exact one. -/
theorem exists_add {a b : UInt64} (h : a.toNat + b.toNat < UInt64.size) :
    ∃ c, add a b = .ok c ∧ c.toNat = a.toNat + b.toNat :=
  ⟨a + b, if_pos h, by rw [UInt64.toNat_add, Nat.mod_eq_of_lt h]⟩

/-- A product that fits a word is the exact one. -/
theorem exists_mul {a b : UInt64} (h : a.toNat * b.toNat < UInt64.size) :
    ∃ c, mul a b = .ok c ∧ c.toNat = a.toNat * b.toNat :=
  ⟨a * b, if_pos h, by rw [UInt64.toNat_mul, Nat.mod_eq_of_lt h]⟩

/-- A division fails for the divisor zero only. -/
theorem div_eq_ok {a b c : UInt64} : div a b = .ok c ↔ b ≠ 0 ∧ a / b = c := by
  unfold div
  split <;> simp [*]

end Checked

/-! ### Attempts -/

/-- A computation that may come to nothing, and that may stop. -/
abbrev Attempt : Type → Type := OptionT (Except Overrun)

instance : MonadLift Option Attempt where
  monadLift o := OptionT.mk (.ok o)

namespace Attempt

variable {α β γ : Type}

/-- The attempt does not stop, and comes to this. -/
def Yields (x : Attempt α) (o : Option α) : Prop :=
  x.run = .ok o

theorem yields_pure (a : α) : Yields (pure a) (some a) := rfl

theorem yields_failure : Yields (failure : Attempt α) none := rfl

theorem yields_option (o : Option α) : Yields (liftM o) o := rfl

/-- An attempt goes on with what its first part comes to, here seen through a map. -/
theorem Yields.bind_map {x : Attempt α} {f : α → Attempt β} {o : Option γ} {h : γ → α}
    {g : γ → Option β} (hx : x.Yields (o.map h)) (hf : ∀ c, o = some c → (f (h c)).Yields (g c)) :
    (x >>= f).Yields (o.bind g) := by
  unfold Yields at hx ⊢
  rw [OptionT.run_bind, hx]
  cases o with
  | none => rfl
  | some c => exact hf c rfl

/-- An attempt goes on with what its first part comes to, if that is anything. -/
theorem Yields.bind {x : Attempt α} {f : α → Attempt β} {o : Option α} {g : α → Option β}
    (hx : x.Yields o) (hf : ∀ a, o = some a → (f a).Yields (g a)) : (x >>= f).Yields (o.bind g) :=
  Yields.bind_map (h := id) (by rwa [Option.map_id]) hf

/-- A checked part that does not stop hands its result on. -/
theorem Yields.check {x : Except Overrun α} {f : α → Attempt β} {a : α} {o : Option β}
    (hx : x = .ok a) (hf : (f a).Yields o) : (liftM x >>= f).Yields o := by
  rw [hx]
  exact hf

end Attempt

end LightClient
