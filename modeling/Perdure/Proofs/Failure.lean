/-!
# Computations that may fail

What a computation tells that goes on step by step until one of its steps fails.

## Main results

* `exists_of_bind_eq_ok` — if it succeeds, each step does.
* `exists_of_bind_eq_error` — if it fails, it is one of the steps that fails.
* `exists_of_mapM_cons` — what is read of a list is read of each of its items.
* `forM_eq_ok`, `exists_of_forM_eq_error` — what is done for each member of a list succeeds for
  every one, or fails for one.
-/

namespace Perdure

variable {ε ε' α β : Type}

/-- Without an error there is none to rename. -/
@[simp] theorem mapError_ok (f : ε → ε') (a : α) :
    (Except.ok a : Except ε α).mapError f = .ok a := rfl

/-- With the error forgotten, the value is there all the same. -/
theorem toOption_eq_some_iff {x : Except ε α} {a : α} : x.toOption = some a ↔ x = .ok a := by
  cases x with
  | error e => exact ⟨nofun, nofun⟩
  | ok b => exact ⟨fun h => congrArg _ (Option.some.inj h), fun h => congrArg _ (Except.ok.inj h)⟩

/-- What goes on with a value has the value to go on with. -/
theorem exists_of_bind_eq_ok {x : Except ε α} {f : α → Except ε β} {b : β}
    (h : (x >>= f) = .ok b) : ∃ a, x = .ok a ∧ f a = .ok b := by
  cases x with
  | error e => cases h
  | ok a => exact ⟨a, rfl, h⟩

/-- What is made of a value is made of the value that there is. -/
theorem exists_of_map_eq_ok {x : Except ε α} {f : α → β} {b : β} (h : x.map f = .ok b) :
    ∃ a, x = .ok a ∧ b = f a := by
  cases x with
  | error e => cases h
  | ok a =>
    cases h
    exact ⟨a, rfl, rfl⟩

/-- What goes on with a value fails before it, or with it. -/
theorem exists_of_bind_eq_error {x : Except ε α} {f : α → Except ε β} {e : ε}
    (h : (x >>= f) = .error e) : x = .error e ∨ ∃ a, x = .ok a ∧ f a = .error e := by
  cases x with
  | error e' =>
    cases h
    exact .inl rfl
  | ok a => exact .inr ⟨a, rfl, h⟩

/-- What is read of a list item by item is read of the first item and of the others. -/
theorem exists_of_mapM_cons {f : α → Option β} {a : α} {l : List α} {bs : List β}
    (h : (a :: l).mapM f = some bs) :
    ∃ b cs, f a = some b ∧ l.mapM f = some cs ∧ bs = b :: cs := by
  rw [List.mapM_cons] at h
  obtain ⟨b, hb, h⟩ := Option.bind_eq_some_iff.1 h
  obtain ⟨cs, hcs, h⟩ := Option.bind_eq_some_iff.1 h
  cases h
  exact ⟨b, cs, hb, hcs, rfl⟩

/-- What is done for each member of a list, without an error, is done for every one. -/
theorem forM_eq_ok {f : α → Except ε Unit} {l : List α} (h : l.forM f = .ok ()) :
    ∀ a ∈ l, f a = .ok () := by
  induction l with
  | nil => exact fun a ha => absurd ha List.not_mem_nil
  | cons b l ih =>
    obtain ⟨u, hb, hl⟩ := exists_of_bind_eq_ok (show (f b >>= fun _ => l.forM f) = .ok () from h)
    intro a ha
    rcases List.mem_cons.1 ha with rfl | ha
    · exact hb
    · exact ih hl a ha

/-- What fails for a list fails for one of its members. -/
theorem exists_of_forM_eq_error {f : α → Except ε Unit} {l : List α} {e : ε}
    (h : l.forM f = .error e) : ∃ a ∈ l, f a = .error e := by
  induction l with
  | nil => cases h
  | cons b l ih =>
    rcases exists_of_bind_eq_error (show (f b >>= fun _ => l.forM f) = .error e from h) with
      hb | ⟨-, -, hl⟩
    · exact ⟨b, List.mem_cons_self, hb⟩
    · obtain ⟨a, ha, he⟩ := ih hl
      exact ⟨a, List.mem_cons_of_mem b ha, he⟩

end Perdure
