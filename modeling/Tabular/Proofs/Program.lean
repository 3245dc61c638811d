import Tabular.Store.Session

/-!
How programs over a store run. A sequence goes on from the session that its first part leaves, and
stops there if that part fails. Without an armed failure a call of a primitive does what the
primitive does to the store, and a primitive that fails leaves the session as it was.
-/

namespace Tabular

/-- A sequence of checks succeeds if each of them does. -/
theorem bind_eq_ok {ε α β : Type} {x : Except ε α} {f : α → Except ε β} {b : β} :
    x >>= f = .ok b ↔ ∃ a, x = .ok a ∧ f a = .ok b := by
  constructor
  · intro h
    cases x with
    | error e => cases h
    | ok a => exact ⟨a, rfl, h⟩
  · rintro ⟨a, rfl, h⟩
    exact h

/-- A sequence of checks fails as the first of its parts that does. -/
theorem bind_eq_error {ε α β : Type} {x : Except ε α} {f : α → Except ε β} {e : ε} :
    x >>= f = .error e ↔ x = .error e ∨ ∃ a, x = .ok a ∧ f a = .error e := by
  cases x with
  | error e' => simp [bind, Except.bind]
  | ok a => simp [bind, Except.bind]

theorem bind_pure_eq_error {ε α β : Type} {x : Except ε α} {f : α → β} {e : ε} :
    (x >>= fun a => pure (f a)) = .error e ↔ x = .error e := by
  rw [bind_eq_error]
  refine or_iff_left ?_
  rintro ⟨a, -, h⟩
  cases h

/-- What every step of a fold preserves holds of what a fold that succeeds comes to. -/
theorem foldlM_preserves {ε α β : Type} {P : β → Prop} {f : β → α → Except ε β} {l : List α}
    {b b' : β} (h : l.foldlM f b = .ok b') (hb : P b)
    (hstep : ∀ {b a b'}, P b → f b a = .ok b' → P b') : P b' := by
  induction l generalizing b with
  | nil =>
      obtain rfl : b = b' := Except.ok.inj h
      exact hb
  | cons a rest ih =>
      rw [List.foldlM_cons] at h
      obtain ⟨c, hc, h⟩ := bind_eq_ok.mp h
      exact ih h (hstep hb hc)

namespace StoreM

variable {α β : Type}

@[simp] theorem exec_pure (a : α) (σ : Session) : (pure a : StoreM α).exec σ = (.ok a, σ) := rfl

theorem exec_bind (x : StoreM α) (f : α → StoreM β) (σ : Session) :
    (x >>= f).exec σ = match x.exec σ with
      | (.ok a, σ') => (f a).exec σ'
      | (.error e, σ') => (.error e, σ') := by
  show (match x.exec σ with | (r, σ') => ExceptT.bindCont f r σ') = _
  rcases x.exec σ with ⟨_ | _, σ'⟩ <;> rfl

theorem exec_bind_ok {x : StoreM α} {f : α → StoreM β} {σ σ' : Session} {a : α}
    (h : x.exec σ = (.ok a, σ')) : (x >>= f).exec σ = (f a).exec σ' := by
  rw [exec_bind, h]

theorem exec_bind_error {x : StoreM α} {f : α → StoreM β} {σ σ' : Session} {e : Error}
    (h : x.exec σ = (.error e, σ')) : (x >>= f).exec σ = (.error e, σ') := by
  rw [exec_bind, h]

@[simp] theorem exec_ofExcept (r : Except Error α) (σ : Session) :
    (ofExcept r : StoreM α).exec σ = (r, σ) := by
  cases r <;> rfl

theorem exec_call (p : Primitive) (act : Store → Except StoreError (α × Store)) (s : Store) :
    (call p act).exec ⟨s, none⟩ = match act s with
      | .ok (a, s') => (.ok a, ⟨s', none⟩)
      | .error cause => (.error (.store cause), ⟨s, none⟩) := rfl

theorem exec_look (p : Primitive) (view : Store → Except StoreError α) (s : Store) :
    (look p view).exec ⟨s, none⟩ = ((view s).mapError .store, ⟨s, none⟩) := by
  rw [look, exec_call]
  cases view s <;> rfl

end StoreM

end Tabular
