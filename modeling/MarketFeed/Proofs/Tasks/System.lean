import MarketFeed.Tasks.System

/-!
# MarketFeed.Proofs.Tasks.System

What every task keeps, a whole run keeps.

* `System.Keeps` — no step of any task breaks a property of the world.
* `Keeps.settle`, `Keeps.await` — the ways to let a system run keep it too.
* `runTask_of_none`, `runTask_of_some`, `settleWithin_of_still` — a task goes on until it waits, and
  a world in which all tasks wait is left as it is.
-/

namespace MarketFeed
namespace System

variable {ω α : Type} {S : System ω α} {P : ω → Prop}

def Keeps (S : System ω α) (P : ω → Prop) : Prop :=
  ∀ now a w w', P w → S.step now a w = some w' → P w'

namespace Keeps

theorem runTask (h : S.Keeps P) (now : Nat) (a : α) (fuel : Nat) {w : ω} (hw : P w) :
    P (S.runTask now a fuel w).2 := by
  induction fuel generalizing w with
  | zero => exact hw
  | succ fuel ih =>
    rw [System.runTask]
    split
    · rename_i w' hstep
      exact ih (h now a w w' hw hstep)
    · exact hw

theorem runTasks (h : S.Keeps P) (now : Nat) (tasks : List α) (fuel : Nat) {w : ω} (hw : P w) :
    P (S.runTasks now tasks fuel w).2 := by
  induction tasks generalizing fuel w with
  | nil => exact hw
  | cons a rest ih => exact ih _ (h.runTask now a fuel hw)

theorem settleWithin (h : S.Keeps P) (now rounds fuel : Nat) {w : ω} (hw : P w) :
    P (S.settleWithin now rounds fuel w) := by
  induction rounds generalizing fuel w with
  | zero => exact hw
  | succ rounds ih =>
    rw [System.settleWithin]
    have hnext := h.runTasks now (S.tasks w) fuel hw
    split
    rename_i left w' heq
    rw [heq] at hnext
    split
    · exact hnext
    · exact ih _ hnext

theorem settle (h : S.Keeps P) {s : Timed ω} (hs : P s.world) : P (S.settle s).world :=
  h.settleWithin _ _ _ hs

theorem awaitWithin (h : S.Keeps P) (done : ω → Bool) (fuel : Nat) {s : Timed ω}
    (hs : P s.world) : P (S.awaitWithin done fuel s).world := by
  induction fuel generalizing s with
  | zero => exact hs
  | succ fuel ih =>
    rw [System.awaitWithin]
    have hnext := h.settle hs
    split
    · exact hnext
    · split
      · exact hnext
      · exact ih hnext

theorem await (h : S.Keeps P) (done : ω → Bool) {s : Timed ω} (hs : P s.world) :
    P (S.await done s).world :=
  h.awaitWithin done _ hs

end Keeps

/-! ## Step by step -/

section

variable {now fuel : Nat} {a : α} {w w' : ω}

theorem runTask_of_none (h : S.step now a w = none) : S.runTask now a fuel w = (fuel, w) := by
  cases fuel with
  | zero => rfl
  | succ fuel => rw [System.runTask, h]

theorem runTask_of_some (h : S.step now a w = some w') :
    S.runTask now a (fuel + 1) w = S.runTask now a fuel w' := by
  rw [System.runTask, h]

theorem runTasks_cons (now : Nat) (a : α) (rest : List α) (fuel : Nat) (w : ω) :
    S.runTasks now (a :: rest) fuel w =
      S.runTasks now rest (S.runTask now a fuel w).1 (S.runTask now a fuel w).2 := rfl

theorem runTasks_of_still {tasks : List α} (h : ∀ a ∈ tasks, S.step now a w = none) :
    S.runTasks now tasks fuel w = (fuel, w) := by
  induction tasks with
  | nil => rfl
  | cons a rest ih =>
    rw [runTasks_cons, runTask_of_none (h a List.mem_cons_self)]
    exact ih fun b hb => h b (List.mem_cons_of_mem a hb)

/-- A round in which something goes on is followed by another one. -/
theorem settleWithin_of_round {rounds left : Nat}
    (h : S.runTasks now (S.tasks w) fuel w = (left, w')) (hleft : left ≠ fuel) :
    S.settleWithin now (rounds + 1) fuel w = S.settleWithin now rounds left w' := by
  rw [System.settleWithin, h]
  exact if_neg hleft

theorem settleWithin_of_still {rounds : Nat} (h : ∀ a ∈ S.tasks w, S.step now a w = none) :
    S.settleWithin now rounds fuel w = w := by
  cases rounds with
  | zero => rfl
  | succ rounds =>
    rw [System.settleWithin, runTasks_of_still h]
    exact if_pos rfl

theorem settle_of_still (h : ∀ a ∈ S.tasks w, S.step now a w = none) :
    S.settle ⟨now, w⟩ = ⟨now, w⟩ :=
  congrArg (Timed.mk now) (settleWithin_of_still h)

end
end System
end MarketFeed
