import Mathlib.Data.List.Induction
import Mathlib.Data.List.Infix

/-!
# Machines and their runs

A machine answers each input with an output and a next state.  `run` and `outputs` read a list of inputs from a
state; `Admissible ok` says that every input of the list is allowed by `ok` in the state it is read in.

Invariants are proved once for a step and carried over runs by `invariant` (states), `invariant_history` (states
together with the inputs and the outputs so far) and `forall_outputs` (outputs); `simulation` carries a relation
between two machines.
-/

/-- One step of a machine: the next state and the output. -/
structure Machine (σ ι ο : Type*) where
  step : σ → ι → σ × ο

namespace Machine

variable {σ ι ο : Type*} (M : Machine σ ι ο)

/-- The state after reading the inputs. -/
def run : σ → List ι → σ
  | s, [] => s
  | s, i :: is => run (M.step s i).1 is

/-- The outputs given while reading the inputs. -/
def outputs : σ → List ι → List ο
  | _, [] => []
  | s, i :: is => (M.step s i).2 :: outputs (M.step s i).1 is

/-- Every input is allowed by `ok` in the state it is read in. -/
def Admissible (ok : σ → ι → Prop) : σ → List ι → Prop
  | _, [] => True
  | s, i :: is => ok s i ∧ Admissible ok (M.step s i).1 is

@[simp] theorem run_nil (s : σ) : M.run s [] = s := rfl

@[simp] theorem run_cons (s : σ) (i : ι) (is : List ι) : M.run s (i :: is) = M.run (M.step s i).1 is := rfl

@[simp] theorem outputs_nil (s : σ) : M.outputs s [] = [] := rfl

@[simp] theorem outputs_cons (s : σ) (i : ι) (is : List ι) :
    M.outputs s (i :: is) = (M.step s i).2 :: M.outputs (M.step s i).1 is := rfl

instance decidableAdmissible {ok : σ → ι → Prop} [∀ s i, Decidable (ok s i)] :
    (s : σ) → (is : List ι) → Decidable (M.Admissible ok s is)
  | _, [] => .isTrue trivial
  | s, i :: is =>
    have : Decidable (M.Admissible ok (M.step s i).1 is) := decidableAdmissible _ is
    inferInstanceAs (Decidable (ok s i ∧ M.Admissible ok (M.step s i).1 is))

theorem run_append (s : σ) (is js : List ι) : M.run s (is ++ js) = M.run (M.run s is) js := by
  induction is generalizing s with
  | nil => rfl
  | cons i is ih => exact ih _

theorem outputs_append (s : σ) (is js : List ι) :
    M.outputs s (is ++ js) = M.outputs s is ++ M.outputs (M.run s is) js := by
  induction is generalizing s with
  | nil => rfl
  | cons i is ih => exact congrArg (List.cons _) (ih _)

theorem admissible_append {ok : σ → ι → Prop} {s : σ} {is js : List ι} :
    M.Admissible ok s (is ++ js) ↔ M.Admissible ok s is ∧ M.Admissible ok (M.run s is) js := by
  induction is generalizing s with
  | nil => simp [Admissible]
  | cons i is ih => exact (and_congr_right fun _ => ih).trans and_assoc.symm

variable {M}

/-- A run in which every input is allowed. -/
theorem admissible_of_forall {ok : σ → ι → Prop} {is : List ι} (h : ∀ i ∈ is, ∀ s, ok s i) (s : σ) :
    M.Admissible ok s is := by
  induction is generalizing s with
  | nil => trivial
  | cons i is ih =>
    exact ⟨h i (List.mem_cons_self ..) s, ih (fun j hj => h j (List.mem_cons_of_mem _ hj)) _⟩

private theorem invariant_history_from {ok : σ → ι → Prop} {P : List ι → σ → List ο → Prop}
    (hstep : ∀ is s os i, ok s i → P is s os → P (is ++ [i]) (M.step s i).1 (os ++ [(M.step s i).2]))
    (js : List ι) {s : σ} (hok : M.Admissible ok s js) {is : List ι} {os : List ο} (h : P is s os) :
    P (is ++ js) (M.run s js) (os ++ M.outputs s js) := by
  induction js generalizing s is os with
  | nil => simpa using h
  | cons j js ih =>
    have hnext := ih hok.2 (hstep is s os j hok.1 h)
    simpa using hnext

/-- What a step keeps of the inputs, the state and the outputs so far, a run keeps. -/
theorem invariant_history {ok : σ → ι → Prop} {P : List ι → σ → List ο → Prop}
    (hstep : ∀ is s os i, ok s i → P is s os → P (is ++ [i]) (M.step s i).1 (os ++ [(M.step s i).2]))
    {s : σ} {js : List ι} (hok : M.Admissible ok s js) (h : P [] s []) : P js (M.run s js) (M.outputs s js) :=
  invariant_history_from hstep js hok h

/-- What a step keeps, a run keeps. -/
theorem invariant {ok : σ → ι → Prop} {P : σ → Prop} (hstep : ∀ s i, ok s i → P s → P (M.step s i).1)
    {s : σ} {is : List ι} (hok : M.Admissible ok s is) (h : P s) : P (M.run s is) := by
  induction is generalizing s with
  | nil => exact h
  | cons i is ih => exact ih hok.2 (hstep s i hok.1 h)

/-- What every step keeps, every run keeps. -/
theorem invariant_of_step {P : σ → Prop} (hstep : ∀ s i, P s → P (M.step s i).1) {s : σ} (h : P s) (is : List ι) :
    P (M.run s is) :=
  invariant (fun s i _ => hstep s i) (admissible_of_forall (fun _ _ _ => trivial) s) h

/-- Every output of a run is the output of a step from a state with the invariant. -/
theorem forall_outputs {ok : σ → ι → Prop} {P : σ → Prop} {Q : ο → Prop}
    (hstep : ∀ s i, ok s i → P s → P (M.step s i).1) (hout : ∀ s i, ok s i → P s → Q (M.step s i).2)
    {s : σ} {is : List ι} (hok : M.Admissible ok s is) (h : P s) : ∀ o ∈ M.outputs s is, Q o := by
  induction is generalizing s with
  | nil => simp
  | cons i is ih =>
    intro o ho
    rcases List.mem_cons.1 ho with rfl | ho
    · exact hout s i hok.1 h
    · exact ih hok.2 (hstep s i hok.1 h) o ho

/-- Two machines that read the same inputs stay related and answer alike if each step keeps it so. -/
theorem simulation {τ : Type*} {N : Machine τ ι ο} {R : σ → τ → Prop}
    (hstep : ∀ s t i, R s t → R (M.step s i).1 (N.step t i).1 ∧ (M.step s i).2 = (N.step t i).2) {s : σ} {t : τ}
    (h : R s t) (is : List ι) : R (M.run s is) (N.run t is) ∧ M.outputs s is = N.outputs t is := by
  induction is generalizing s t with
  | nil => exact ⟨h, rfl⟩
  | cons i is ih =>
    obtain ⟨hnext, hout⟩ := hstep s t i h
    obtain ⟨hrun, houtputs⟩ := ih hnext
    exact ⟨hrun, by rw [outputs_cons, outputs_cons, hout, houtputs]⟩

/-- What holds at every point of a run, when a step from where it holds keeps it exactly if the input is allowed: it
holds after every prefix of the inputs exactly if every input is allowed in the state it is read in. -/
theorem forall_prefix_iff {ok : σ → ι → Prop} {Inv : σ → Prop} {P : List ι → σ → Prop}
    (hinv : ∀ s i, Inv s → Inv (M.step s i).1)
    (hstep : ∀ is s i, Inv s → P is s → (P (is ++ [i]) (M.step s i).1 ↔ ok s i)) {s : σ} (hs : Inv s) (h : P [] s)
    (is : List ι) : (∀ before, before <+: is → P before (M.run s before)) ↔ M.Admissible ok s is := by
  induction is using List.reverseRecOn with
  | nil =>
    refine iff_of_true ?_ trivial
    intro before hbefore
    rw [List.prefix_nil.1 hbefore]
    exact h
  | append_singleton is i ih =>
    have hany : M.Admissible (fun _ _ => True) s is := admissible_of_forall (fun _ _ _ => trivial) s
    have hrun : Inv (M.run s is) := invariant (fun s i _ => hinv s i) hany hs
    rw [admissible_append, ← ih]
    constructor
    · intro hall
      have hlast := hall is (List.prefix_append ..)
      have hafter := hall (is ++ [i]) List.prefix_rfl
      rw [run_append] at hafter
      exact ⟨fun before hbefore => hall before (hbefore.trans (List.prefix_append ..)),
        (hstep is _ i hrun hlast).1 hafter, trivial⟩
    · rintro ⟨hall, hok, -⟩ before hbefore
      rcases List.prefix_concat_iff.1 hbefore with rfl | hbefore
      · rw [run_append]
        exact (hstep is _ i hrun (hall is List.prefix_rfl)).2 hok
      · exact hall before hbefore

end Machine
