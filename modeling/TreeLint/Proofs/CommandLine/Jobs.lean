/-
TreeLint/Proofs/CommandLine/Jobs.lean

Running jobs step by step.

A job comes to a result or a failure, and to a session in either case.  What
every step does to the session, the whole job does: a reflexive and transitive
relation between the sessions before and after is kept by a sequence of jobs,
and by a job for each element of a list, if their parts keep it (`Job.Moves`).
-/
import Mathlib.Order.Defs.Unbundled
import TreeLint.CommandLine.Run

namespace TreeLint.CommandLine.Job

variable {α β ε : Type} {j : Job α} {k : α → Job β} {s s' : Session}

/-! ### One job after another -/

/-- What a job comes to from a session: its result, and the session then. -/
def exec (j : Job α) (s : Session) : Except (List String) α × Session := j.run.run s

@[simp] theorem exec_get (s : Session) : (get : Job Session).exec s = (.ok s, s) := rfl

theorem exec_bind (j : Job α) (k : α → Job β) (s : Session) :
    (j >>= k).exec s = match j.exec s with
      | (.ok a, s') => (k a).exec s'
      | (.error e, s') => (.error e, s') := by
  simp only [exec, ExceptT.run_bind, StateT.run_bind]
  show (match j.run.run s with
    | (a, s') => _) = _
  rcases j.run.run s with ⟨_ | _, s'⟩ <;> rfl

theorem exec_bind_of_ok {a : α} (h : j.exec s = (.ok a, s')) (k : α → Job β) :
    (j >>= k).exec s = (k a).exec s' := by
  rw [exec_bind, h]

theorem exec_bind_of_error {causes : List String} (h : j.exec s = (.error causes, s'))
    (k : α → Job β) : (j >>= k).exec s = (.error causes, s') := by
  rw [exec_bind, h]

@[simp] theorem exec_get_bind (k : Session → Job β) (s : Session) :
    (get >>= k).exec s = (k s).exec s :=
  exec_bind_of_ok (exec_get s) k

/-! ### What all steps do -/

/-- Whatever a job comes to, it takes the session to a related one. -/
def Moves (R : Session → Session → Prop) (j : Job α) : Prop := ∀ s, R s (j.exec s).2

namespace Moves

variable {R : Session → Session → Prop}

theorem of_modify {f : Session → Session} (h : ∀ s, R s (f s)) : Moves R (modify f : Job Unit) := h

section

variable [Std.Refl R]

theorem of_pure (a : α) : Moves R (pure a : Job α) := fun s => Std.Refl.refl s

theorem of_throw (causes : List String) : Moves R (throw causes : Job α) := fun s => Std.Refl.refl s

theorem of_get : Moves R (get : Job Session) := fun s => Std.Refl.refl s

theorem of_attempt (what : String) (causes : ε → List String) (result : Except ε α) :
    Moves R (attempt what causes result) := by
  intro s
  cases result with
  | ok a => exact Std.Refl.refl s
  | error e => exact Std.Refl.refl s

end

variable [IsTrans Session R]

theorem bind (hj : Moves R j) (hk : ∀ a, Moves R (k a)) : Moves R (j >>= k) := by
  intro s
  have hs := hj s
  rcases hexec : j.exec s with ⟨e | a, s'⟩ <;> rw [hexec] at hs
  · rwa [exec_bind_of_error hexec]
  · rw [exec_bind_of_ok hexec]
    exact IsTrans.trans s s' _ hs (hk a s')

variable [Std.Refl R]

theorem forM {xs : List α} {f : α → Job PUnit} (h : ∀ x ∈ xs, Moves R (f x)) :
    Moves R (xs.forM f) := by
  induction xs with
  | nil => exact of_pure _
  | cons x xs ih =>
    exact (h x List.mem_cons_self).bind fun _ =>
      ih fun y hy => h y (List.mem_cons_of_mem x hy)

theorem mapM {xs : List α} {f : α → Job β} (h : ∀ x ∈ xs, Moves R (f x)) :
    Moves R (xs.mapM f) := by
  induction xs with
  | nil => exact of_pure _
  | cons x xs ih =>
    rw [List.mapM_cons]
    refine (h x List.mem_cons_self).bind fun _ => ?_
    exact (ih fun y hy => h y (List.mem_cons_of_mem x hy)).bind fun _ => of_pure _

end Moves

end TreeLint.CommandLine.Job

namespace TreeLint.CommandLine

/-! ### The job of a request -/

/-- The session that a run starts with. -/
def Environment.start (env : Environment) (g : General) : Session where
  files := env.files
  colored := env.colored && !g.noColor

/-- A run leaves the files and the record of what is written as its job does. -/
theorem Request.run_eq (env : Environment) (r : Request) :
    let s := ((runTask env.home r.general r.task).exec (env.start r.general)).2
    (r.run env).files = s.files ∧ (r.run env).written = s.written := by
  rcases hexec : (runTask env.home r.general r.task).exec (env.start r.general)
    with ⟨causes | code, s⟩ <;>
  · have hrun : (runTask env.home r.general r.task).run.run
        { files := env.files, colored := env.colored && !r.general.noColor } = _ := hexec
    rw [Request.run]
    dsimp only
    rw [hrun]
    exact ⟨rfl, rfl⟩

end TreeLint.CommandLine
