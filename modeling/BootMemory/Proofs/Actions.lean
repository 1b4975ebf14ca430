import Mathlib
import BootMemory.Machine.Basic

/-!
# Running actions

What the steps of an action do to a state, as equations.  A proof about an action rewrites with
them and with the equations of the actions it calls, and never opens the state monad.
-/

namespace BootMemory.Action

variable {σ ε δ α β : Type}

theorem bind_apply (x : Action σ ε α) (f : α → Action σ ε β) (s : σ) :
    (x >>= f) s =
      match x s with
      | .ok a s' => f a s'
      | .error e s' => .error e s' := by
  change EStateM.bind x f s = _
  unfold EStateM.bind
  cases x s <;> rfl

theorem bind_ok {x : Action σ ε α} {f : α → Action σ ε β} {s s' : σ} {a : α}
    (hrun : x s = .ok a s') : (x >>= f) s = f a s' := by
  rw [bind_apply, hrun]

theorem bind_error {x : Action σ ε α} {f : α → Action σ ε β} {s s' : σ} {e : Failure ε}
    (hrun : x s = .error e s') : (x >>= f) s = .error e s' := by
  rw [bind_apply, hrun]

theorem bind_eq_ok {x : Action σ ε α} {f : α → Action σ ε β} {s s'' : σ} {b : β} :
    (x >>= f) s = .ok b s'' ↔ ∃ a s', x s = .ok a s' ∧ f a s' = .ok b s'' := by
  rw [bind_apply]
  cases x s with
  | ok a s' =>
      constructor
      · intro hrest
        exact ⟨a, s', rfl, hrest⟩
      · rintro ⟨_, _, heq, hrest⟩
        cases heq
        exact hrest
  | error e s' =>
      constructor
      · intro heq
        cases heq
      · rintro ⟨_, _, heq, _⟩
        cases heq

theorem bind_eq_error {x : Action σ ε α} {f : α → Action σ ε β} {s s'' : σ} {e : Failure ε} :
    (x >>= f) s = .error e s'' ↔
      x s = .error e s'' ∨ ∃ a s', x s = .ok a s' ∧ f a s' = .error e s'' := by
  rw [bind_apply]
  cases x s <;> simp

theorem mapM_cons_ok {f : α → Action σ ε β} {a : α} {as : List α} {b : β} {bs : List β}
    {s s' s'' : σ} (hhead : f a s = .ok b s') (hrest : as.mapM f s' = .ok bs s'') :
    (a :: as).mapM f s = .ok (b :: bs) s'' := by
  rw [List.mapM_cons, bind_ok hhead, bind_ok hrest]
  rfl

theorem get_apply (s : σ) : (get : Action σ ε σ) s = .ok s s := rfl

theorem set_apply (s t : σ) : (set t : Action σ ε PUnit) s = .ok ⟨⟩ t := rfl

theorem modify_apply (f : σ → σ) (s : σ) : (modify f : Action σ ε PUnit) s = .ok ⟨⟩ (f s) := rfl

theorem modifyGet_apply (f : σ → α × σ) (s : σ) :
    (modifyGet f : Action σ ε α) s = .ok (f s).1 (f s).2 := rfl

theorem lift_ok (a : α) (s : σ) :
    (liftM (Except.ok a : Except Fault α) : Action σ ε α) s = .ok a s := rfl

theorem lift_error (f : Fault) (s : σ) :
    (liftM (Except.error f : Except Fault α) : Action σ ε α) s = .error (.fault f) s := rfl

theorem lift_eq_ok {x : Except Fault α} {s s' : σ} {a : α}
    (hrun : (liftM x : Action σ ε α) s = .ok a s') : x = .ok a ∧ s' = s := by
  cases x with
  | ok b =>
      cases hrun
      exact ⟨rfl, rfl⟩
  | error f => cases hrun

theorem mapError_ok {x : Action σ ε α} {s s' : σ} {a : α} {restate : ε → δ}
    (hrun : x s = .ok a s') : mapError restate x s = .ok a s' := by
  unfold mapError EStateM.adaptExcept
  rw [hrun]

theorem mapError_error {x : Action σ ε α} {s s' : σ} {e : Failure ε} {restate : ε → δ}
    (hrun : x s = .error e s') : mapError restate x s = .error (e.mapError restate) s' := by
  unfold mapError EStateM.adaptExcept
  rw [hrun]

theorem mapError_eq_ok {x : Action σ ε α} {s s' : σ} {a : α} {restate : ε → δ}
    (hrun : mapError restate x s = .ok a s') : x s = .ok a s' := by
  cases hx : x s with
  | ok b t =>
      rw [mapError_ok hx] at hrun
      cases hrun
      rfl
  | error e t =>
      rw [mapError_error hx] at hrun
      cases hrun

theorem mapError_eq_error {x : Action σ ε α} {s s' : σ} {e : Failure δ} {restate : ε → δ} :
    mapError restate x s = .error e s' ↔ ∃ d, d.mapError restate = e ∧ x s = .error d s' := by
  cases hx : x s with
  | ok b t => simp [mapError_ok hx]
  | error d t => simp [mapError_error hx]

theorem attempt_ok {x : Action σ ε α} {s s' : σ} {a : α} (hrun : x s = .ok a s') :
    (attempt x : Action σ δ (Option α)) s = .ok (some a) s' := by
  unfold attempt
  rw [hrun]

theorem attempt_error {x : Action σ ε α} {s s' : σ} {e : ε}
    (hrun : x s = .error (.error e) s') :
    (attempt x : Action σ δ (Option α)) s = .ok none s' := by
  unfold attempt
  rw [hrun]

end BootMemory.Action

namespace BootMemory.Checked

variable {ε α β : Type}

theorem bind_eq_ok {x : Except ε α} {f : α → Except ε β} {b : β} :
    (x >>= f) = .ok b ↔ ∃ a, x = .ok a ∧ f a = .ok b := by
  cases x with
  | ok a => simp [bind, Except.bind]
  | error e => simp [bind, Except.bind]

theorem mapError_eq_ok {δ : Type} {restate : ε → δ} {x : Except ε α} {a : α}
    (hmap : x.mapError restate = .ok a) : x = .ok a := by
  cases x with
  | ok b => exact congrArg Except.ok (Except.ok.inj hmap)
  | error e => cases hmap

theorem forM_eq_ok {f : α → Except ε Unit} {xs : List α} :
    xs.forM f = .ok ⟨⟩ ↔ ∀ x ∈ xs, f x = .ok ⟨⟩ := by
  induction xs with
  | nil => simp [List.forM, pure, Except.pure]
  | cons x xs ih =>
      rw [List.forall_mem_cons, ← ih]
      change (f x >>= fun _ => xs.forM f) = .ok ⟨⟩ ↔ _
      rw [bind_eq_ok]
      exact ⟨fun ⟨_, hhead, hrest⟩ => ⟨hhead, hrest⟩, fun ⟨hhead, hrest⟩ => ⟨_, hhead, hrest⟩⟩

theorem forall₂_of_mapM_eq_ok {f : α → Except ε β} {xs : List α} {ys : List β}
    (hmap : xs.mapM f = .ok ys) : List.Forall₂ (fun x y => f x = .ok y) xs ys := by
  induction xs generalizing ys with
  | nil =>
      cases hmap
      exact .nil
  | cons x xs ih =>
      rw [List.mapM_cons] at hmap
      obtain ⟨y, hy, hrest⟩ := bind_eq_ok.mp hmap
      obtain ⟨ys', hys, hpure⟩ := bind_eq_ok.mp hrest
      cases hpure
      exact .cons hy (ih hys)

theorem mem_iff_of_mapM_eq_ok {f : α → Except ε β} {xs : List α} {ys : List β}
    (hmap : xs.mapM f = .ok ys) (y : β) : y ∈ ys ↔ ∃ x ∈ xs, f x = .ok y := by
  have hall := forall₂_of_mapM_eq_ok hmap
  clear hmap
  induction hall with
  | nil => simp
  | cons hhead _ ih =>
      simp [ih, hhead, eq_comm (a := y)]

theorem exists_of_mapM_eq_ok {f : α → Except ε β} {xs : List α} {ys : List β}
    (hmap : xs.mapM f = .ok ys) {x : α} (hx : x ∈ xs) : ∃ y, f x = .ok y := by
  have hall := forall₂_of_mapM_eq_ok hmap
  clear hmap
  induction hall with
  | nil => contradiction
  | cons hhead _ ih =>
      rcases List.mem_cons.mp hx with rfl | hin
      · exact ⟨_, hhead⟩
      · exact ih hin

theorem exists_mapM_eq_ok {f : α → Except ε β} {xs : List α} (hall : ∀ x ∈ xs, ∃ y, f x = .ok y) :
    ∃ ys, xs.mapM f = .ok ys := by
  induction xs with
  | nil => exact ⟨[], rfl⟩
  | cons x xs ih =>
      rw [List.forall_mem_cons] at hall
      obtain ⟨⟨y, hy⟩, hrest⟩ := hall
      obtain ⟨ys, hys⟩ := ih hrest
      exact ⟨y :: ys, by rw [List.mapM_cons, hy, hys]; rfl⟩

end BootMemory.Checked
