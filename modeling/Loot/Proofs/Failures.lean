import Loot.Proofs.Draw

/-!
# What a computation can fail with

`FailsOnly Q x` says that every failure of the lookup `x` satisfies `Q`, and `Draw.FailsOnly Q d`
says the same of every run of the draw `d`. Both follow how computations are put together, so a
property of every failure of a whole computation is one lemma per function, each assembled from the
lemmas of the functions it calls.
-/

namespace Loot

/-- Every failure of `x` satisfies `Q`. -/
def FailsOnly {α : Type} (Q : Fault → Prop) (x : Except Fault α) : Prop :=
  ∀ e, x = .error e → Q e

section FailsOnly

variable {α β : Type} {Q Q' : Fault → Prop}

@[simp]
theorem failsOnly_ok_iff (a : α) : FailsOnly Q (.ok a) ↔ True := by
  refine iff_of_true ?_ trivial
  intro e h
  cases h

@[simp]
theorem FailsOnly.pure (a : α) : FailsOnly Q (pure a) := (failsOnly_ok_iff a).2 trivial

@[simp]
theorem failsOnly_error_iff {e : Fault} : FailsOnly Q (.error e : Except Fault α) ↔ Q e := by
  constructor
  · exact fun h => h e rfl
  · intro h e' he
    cases he
    exact h

@[simp]
theorem failsOnly_throw_iff {e : Fault} : FailsOnly Q (throw e : Except Fault α) ↔ Q e :=
  failsOnly_error_iff

theorem FailsOnly.mono {x : Except Fault α} (hx : FailsOnly Q x) (h : ∀ e, Q e → Q' e) :
    FailsOnly Q' x :=
  fun e he => h e (hx e he)

/-- A lookup `x >>= f` fails only as `Q` allows when `x` does and `f` does on every result of
`x`. -/
theorem FailsOnly.bind {x : Except Fault α} {f : α → Except Fault β} (hx : FailsOnly Q x)
    (hf : ∀ a, x = .ok a → FailsOnly Q (f a)) : FailsOnly Q (x >>= f) := by
  intro e h
  cases hxa : x with
  | error e' =>
    rw [hxa, except_error_bind] at h
    cases h
    exact hx e hxa
  | ok a =>
    rw [hxa, except_ok_bind] at h
    exact hf a hxa e h

theorem FailsOnly.map {x : Except Fault α} {f : α → β} (hx : FailsOnly Q x) :
    FailsOnly Q (f <$> x) := by
  intro e h
  cases hxa : x with
  | error e' =>
    rw [hxa] at h
    cases h
    exact hx e hxa
  | ok a =>
    rw [hxa] at h
    cases h

/-- Looking up each element of a list fails only as each lookup does. -/
theorem FailsOnly.mapM {f : α → Except Fault β} :
    ∀ {xs : List α}, (∀ x ∈ xs, FailsOnly Q (f x)) → FailsOnly Q (xs.mapM f)
  | [], _ => FailsOnly.pure []
  | x :: xs, h => by
    rw [List.mapM_cons]
    refine FailsOnly.bind (h x List.mem_cons_self) fun y _ => ?_
    exact FailsOnly.bind (FailsOnly.mapM fun x' hx' => h x' (List.mem_cons_of_mem x hx'))
      fun ys _ => FailsOnly.pure _

/-- Keeping the elements of a list that pass a test fails only as each test does. -/
theorem FailsOnly.filterAuxM {p : α → Except Fault Bool} :
    ∀ {xs : List α} (acc : List α), (∀ x ∈ xs, FailsOnly Q (p x)) →
      FailsOnly Q (List.filterAuxM p xs acc)
  | [], acc, _ => FailsOnly.pure acc
  | x :: xs, acc, h => by
    rw [List.filterAuxM]
    exact FailsOnly.bind (h x List.mem_cons_self) fun b _ =>
      FailsOnly.filterAuxM _ fun x' hx' => h x' (List.mem_cons_of_mem x hx')

theorem FailsOnly.filterM {p : α → Except Fault Bool} {xs : List α}
    (h : ∀ x ∈ xs, FailsOnly Q (p x)) : FailsOnly Q (xs.filterM p) := by
  unfold List.filterM
  exact FailsOnly.bind (FailsOnly.filterAuxM [] h) fun ys _ => FailsOnly.pure _

/-- Mapping the elements of a list to optional results fails only as each mapping does. -/
theorem FailsOnly.filterMapM {f : α → Except Fault (Option β)} :
    ∀ {xs : List α}, (∀ x ∈ xs, FailsOnly Q (f x)) → FailsOnly Q (xs.filterMapM f)
  | [], _ => FailsOnly.pure []
  | x :: xs, h => by
    rw [List.filterMapM_cons]
    refine FailsOnly.bind (h x List.mem_cons_self) fun o _ => ?_
    have hrest := FailsOnly.filterMapM fun x' hx' => h x' (List.mem_cons_of_mem x hx')
    cases o with
    | none => exact hrest
    | some y => exact FailsOnly.bind hrest fun ys _ => FailsOnly.pure _

/-- A fold fails only as its step does, from whatever it has gathered. -/
theorem FailsOnly.foldlM {f : β → α → Except Fault β} :
    ∀ {xs : List α} (b : β), (∀ b, ∀ x ∈ xs, FailsOnly Q (f b x)) → FailsOnly Q (xs.foldlM f b)
  | [], b, _ => FailsOnly.pure b
  | x :: xs, b, h => by
    rw [List.foldlM_cons]
    exact FailsOnly.bind (h b x List.mem_cons_self) fun b' _ =>
      FailsOnly.foldlM b' fun b'' x' hx' => h b'' x' (List.mem_cons_of_mem x hx')

end FailsOnly

namespace Random

/-- Every failure of a run of `d`, from any source, satisfies `Q`. -/
def Draw.FailsOnly {α : Type} (Q : Fault → Prop) (d : Draw α) : Prop :=
  ∀ s e s', d.run s = .error e s' → Q e

section DrawFailsOnly

variable {α β : Type} {Q : Fault → Prop}

theorem Draw.FailsOnly.pure (a : α) : Draw.FailsOnly Q (pure a) := by
  intro s e s' h
  cases h

theorem Draw.FailsOnly.throw {e : Fault} (h : Q e) : Draw.FailsOnly Q (throw e : Draw α) := by
  intro s e' s' he
  cases he
  exact h

theorem Draw.FailsOnly.fromExcept {x : Except Fault α} (h : Loot.FailsOnly Q x) :
    Draw.FailsOnly Q (fromExcept x) := by
  cases x with
  | ok a => exact Draw.FailsOnly.pure a
  | error e => exact Draw.FailsOnly.throw (h e rfl)

/-- A draw `x >>= f` fails only as `Q` allows when `x` does and `f` does after every successful
run of `x`. -/
theorem Draw.FailsOnly.bind {x : Draw α} {f : α → Draw β} (hx : Draw.FailsOnly Q x)
    (hf : ∀ s a s₁, x.run s = .ok a s₁ → Draw.FailsOnly Q (f a)) :
    Draw.FailsOnly Q (x >>= f) := by
  intro s e s' h
  rw [EStateM.run_bind] at h
  cases hxs : x.run s with
  | ok a s₁ =>
    rw [hxs] at h
    exact hf s a s₁ hxs _ e s' h
  | error e₁ s₁ =>
    rw [hxs] at h
    cases h
    exact hx _ _ _ hxs

theorem Draw.FailsOnly.map {x : Draw α} {f : α → β} (hx : Draw.FailsOnly Q x) :
    Draw.FailsOnly Q (f <$> x) := by
  rw [map_eq_pure_bind]
  exact Draw.FailsOnly.bind hx fun _ a _ _ => Draw.FailsOnly.pure (f a)

/-- Drawing for each element of a list fails only as each draw does. -/
theorem Draw.FailsOnly.mapM {f : α → Draw β} :
    ∀ {xs : List α}, (∀ x ∈ xs, Draw.FailsOnly Q (f x)) → Draw.FailsOnly Q (xs.mapM f)
  | [], _ => Draw.FailsOnly.pure []
  | x :: xs, h => by
    rw [List.mapM_cons]
    refine Draw.FailsOnly.bind (h x List.mem_cons_self) fun _ y _ _ => ?_
    exact Draw.FailsOnly.bind
      (Draw.FailsOnly.mapM fun x' hx' => h x' (List.mem_cons_of_mem x hx'))
      fun _ ys _ _ => Draw.FailsOnly.pure _

end DrawFailsOnly

end Random

end Loot
