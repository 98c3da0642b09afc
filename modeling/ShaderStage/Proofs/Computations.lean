import Mathlib.Data.List.Forall2

/-! # Computations

The emitter computes with a state and errors, the reader of descriptions with errors alone, and both
keep their tables as lists of pairs. Here is what holds of all such computations and tables,
whatever they are about:

* `bind_eq_ok` and `except_bind_eq_ok`: a sequence that succeeds has a first part that succeeds;
* `forall₂_of_mapM`: what holds of one result holds of the results along a list;
* `mem_of_lookup`: what is found in a table is in it. -/

namespace ShaderStage

/-! ## With a state -/

section

variable {ε σ α β : Type}

/-- The state in which a computation ends, in success or failure. -/
def endState : EStateM.Result ε σ α → σ
  | .ok _ s => s
  | .error _ s => s

theorem bind_apply (x : EStateM ε σ α) (f : α → EStateM ε σ β) (s : σ) :
    (x >>= f) s =
      match x s with
      | .ok a s' => f a s'
      | .error e s' => .error e s' := rfl

theorem map_apply (g : α → β) (x : EStateM ε σ α) (s : σ) :
    (g <$> x) s =
      match x s with
      | .ok a s' => .ok (g a) s'
      | .error e s' => .error e s' := rfl

@[simp] theorem pure_apply (a : α) (s : σ) : (pure a : EStateM ε σ α) s = .ok a s := rfl

@[simp] theorem throw_apply (e : ε) (s : σ) : (throw e : EStateM ε σ α) s = .error e s := rfl

@[simp] theorem get_apply (s : σ) : (get : EStateM ε σ σ) s = .ok s s := rfl

@[simp] theorem modify_apply (f : σ → σ) (s : σ) :
    (modify f : EStateM ε σ PUnit) s = .ok ⟨⟩ (f s) := rfl

/-- A first part that succeeds can be taken off. -/
theorem bind_of_eq_ok {x : EStateM ε σ α} {f : α → EStateM ε σ β} {s s' : σ} {a : α}
    (h : x s = .ok a s') : (x >>= f) s = f a s' := by
  rw [bind_apply, h]

/-- A sequence that succeeds has two parts that do, one from where the other ends. -/
theorem bind_eq_ok {x : EStateM ε σ α} {f : α → EStateM ε σ β} {s s' : σ} {b : β}
    (h : (x >>= f) s = .ok b s') : ∃ a s₁, x s = .ok a s₁ ∧ f a s₁ = .ok b s' := by
  rw [bind_apply] at h
  cases hrun : x s with
  | ok a s₁ =>
    rw [hrun] at h
    exact ⟨a, s₁, rfl, h⟩
  | error e s₁ =>
    rw [hrun] at h
    cases h

/-- A result that was computed without the state is that of a run, which ends somewhere. -/
theorem eq_ok_of_run' {x : EStateM ε σ α} {s : σ} {a : α} (h : x.run' s = some a) :
    x s = .ok a (endState (x s)) := by
  unfold EStateM.run' EStateM.run at h
  cases hrun : x s with
  | ok b s' =>
    rw [hrun] at h
    cases h
    rfl
  | error e s' =>
    rw [hrun] at h
    cases h

end

/-! ## With errors alone -/

section

variable {ε ε' α β : Type}

/-- What is not lost succeeded. -/
theorem eq_ok_of_toOption {x : Except ε α} {a : α} (h : x.toOption = some a) : x = .ok a := by
  cases x with
  | error e => cases h
  | ok b =>
    cases h
    rfl

/-- A function of the result succeeds where the result does. -/
theorem except_map_eq_ok_iff {x : Except ε α} {f : α → β} {b : β} :
    x.map f = .ok b ↔ ∃ a, x = .ok a ∧ f a = b := by
  cases x with
  | error e => simp [Except.map]
  | ok a => simp [Except.map]

/-- Other words for an error make no success of it. -/
theorem except_mapError_eq_ok_iff {x : Except ε α} {f : ε → ε'} {a : α} :
    x.mapError f = .ok a ↔ x = .ok a := by
  cases x with
  | error e => simp [Except.mapError]
  | ok a => simp [Except.mapError]

/-- A sequence that succeeds has a first part that succeeds. -/
theorem except_bind_eq_ok {x : Except ε α} {f : α → Except ε β} {b : β} (h : x >>= f = .ok b) :
    ∃ a, x = .ok a ∧ f a = .ok b := by
  cases x with
  | error e => cases h
  | ok a => exact ⟨a, rfl, h⟩

variable {f : α → Except ε β} {R : α → β → Prop}

/-- What relates each result to its input relates the results of a list to the list. -/
theorem forall₂_of_mapM (hf : ∀ a b, f a = .ok b → R a b) {as : List α} {bs : List β}
    (h : as.mapM f = .ok bs) : List.Forall₂ R as bs := by
  induction as generalizing bs with
  | nil =>
    cases h
    exact .nil
  | cons a as ih =>
    rw [List.mapM_cons] at h
    obtain ⟨b, hb, h⟩ := except_bind_eq_ok h
    obtain ⟨bs, hbs, h⟩ := except_bind_eq_ok h
    cases h
    exact .cons (hf a b hb) (ih hbs)

/-- What holds of the result holds if there is something to compute from. -/
theorem rel_of_mapM (hf : ∀ a b, f a = .ok b → R a b) {a? : Option α} {b? : Option β}
    (h : a?.mapM f = .ok b?) : Option.Rel R a? b? := by
  cases a? with
  | none =>
    cases h
    exact .none
  | some a =>
    obtain ⟨b, hb, h⟩ := except_bind_eq_ok h
    cases h
    exact .some (hf a b hb)

end

/-! ## Tables -/

section

variable {α β : Type}

/-- What is found in a table is in it. -/
theorem mem_of_lookup [BEq α] [LawfulBEq α] {a : α} {b : β} {l : List (α × β)}
    (h : l.lookup a = some b) : (a, b) ∈ l := by
  obtain ⟨l₁, l₂, rfl, -⟩ := List.lookup_eq_some_iff.mp h
  exact List.mem_append_right _ List.mem_cons_self

/-- A new entry is found first, and hides no entry but those of its own key. -/
theorem lookup_cons_eq_ite [DecidableEq α] (a a' : α) (b : β) (l : List (α × β)) :
    List.lookup a ((a', b) :: l) = if a = a' then some b else List.lookup a l := by
  rw [List.lookup_cons]
  by_cases h : a = a'
  · simp [h]
  · rw [beq_false_of_ne h, if_neg h]

end

end ShaderStage
