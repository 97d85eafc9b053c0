import Mathlib.Data.List.Nodup
import Mathlib.Logic.Function.Basic

-- Tasks that read a store, compute what to write and write it some time later, without a lock in
-- between.
namespace ReadModifyWrite

-- `read i s` is what task `i` will write if it loads `s`; a task can decide not to write. Loading can
-- change the store, too.
structure System (ι σ κ : Type) where
  load  : ι → σ → σ
  read  : ι → σ → Option κ
  write : κ → σ → σ

inductive Task (κ : Type)
  | idle
  | loaded (version : Nat) (out : Option κ)
  | done

-- The version counts the writes; no task of the modelled programs looks at it.
structure State (ι σ κ : Type) where
  store   : σ
  version : Nat := 0
  task    : ι → Task κ := fun _ => .idle

inductive Event (ι : Type)
  | load (i : ι)
  | save (i : ι)

variable {ι σ κ ν : Type}

section

variable [DecidableEq ι] (sys : System ι σ κ)

inductive Step : State ι σ κ → Event ι → State ι σ κ → Prop
  | load {s : State ι σ κ} {i : ι} :
    s.task i = .idle →
    Step s (.load i) { s with
      store := sys.load i s.store
      task := Function.update s.task i (.loaded s.version (sys.read i s.store))
    }
  | save {s : State ι σ κ} {i : ι} {v : Nat} {out : κ} :
    s.task i = .loaded v (some out) →
    Step s (.save i) {
      store := sys.write out s.store
      version := s.version + 1
      task := Function.update s.task i .done
    }
  | finish {s : State ι σ κ} {i : ι} {v : Nat} :
    s.task i = .loaded v none →
    Step s (.save i) { s with task := Function.update s.task i .done }

inductive Run : State ι σ κ → List (Event ι) → State ι σ κ → Prop
  | refl (s : State ι σ κ) : Run s [] s
  | trans {s₁ s₂ s₃ : State ι σ κ} {e : Event ι} {es : List (Event ι)} :
    Step sys s₁ e s₂ → Run s₂ es s₃ → Run s₁ (e :: es) s₃

-- Nothing was written between the load and the save of a task that writes.
def Undisturbed (s : State ι σ κ) : Event ι → Prop
  | .load _ => True
  | .save i => ∀ v out, s.task i = .loaded v (some out) → v = s.version

inductive UndisturbedRun : State ι σ κ → List (Event ι) → State ι σ κ → Prop
  | refl (s : State ι σ κ) : UndisturbedRun s [] s
  | trans {s₁ s₂ s₃ : State ι σ κ} {e : Event ι} {es : List (Event ι)} :
    Undisturbed s₁ e → Step sys s₁ e s₂ → UndisturbedRun s₂ es s₃ → UndisturbedRun s₁ (e :: es) s₃

end

namespace System

variable (sys : System ι σ κ)

-- A task that runs alone.
def alone (i : ι) (s : σ) : σ :=
  match sys.read i s with
  | some out => sys.write out (sys.load i s)
  | none     => sys.load i s

def serial (order : List ι) (s : σ) : σ :=
  order.foldl (fun s i => sys.alone i s) s

-- A view of the store on which everything depends, and which loading does not change.
structure Views (view : σ → ν) (Inv : σ → Prop) : Prop where
  inv_load   : ∀ {s} i, Inv s → Inv (sys.load i s)
  inv_write  : ∀ {s} out, Inv s → Inv (sys.write out s)
  view_load  : ∀ {s} i, Inv s → view (sys.load i s) = view s
  view_read  : ∀ {s s'} i, view s = view s' → sys.read i s = sys.read i s'
  view_write : ∀ {s s'} out, view s = view s' → view (sys.write out s) = view (sys.write out s')

end System

-- The task needs no further write.
def Task.Settled : Task κ → Prop
  | idle         => False
  | loaded _ out => out = none
  | done         => True

-- The store is what the settled tasks make of `s₀` in some order, and the tasks that loaded the
-- current version will write what they would write now.
structure Serial (sys : System ι σ κ) (view : σ → ν) (Inv : σ → Prop) (s₀ : σ) (order : List ι)
    (s : State ι σ κ) : Prop where
  inv     : Inv s.store
  inv'    : Inv (sys.serial order s₀)
  nodup   : order.Nodup
  settled : ∀ i, i ∈ order ↔ (s.task i).Settled
  store   : view s.store = view (sys.serial order s₀)
  le      : ∀ i v out, s.task i = .loaded v out → v ≤ s.version
  current : ∀ i v out, s.task i = .loaded v (some out) → v = s.version →
    sys.read i s.store = some out

section

variable {sys : System ι σ κ} {view : σ → ν} {Inv : σ → Prop} {s₀ : σ} {s s' : State ι σ κ}
variable {order : List ι} {i : ι}

theorem System.serial_append (order : List ι) (i : ι) (s : σ) :
    sys.serial (order ++ [i]) s = sys.alone i (sys.serial order s) := by
  simp [serial]

theorem System.Views.inv_alone (hv : sys.Views view Inv) {s : σ} (h : Inv s) : Inv (sys.alone i s) := by
  simp only [alone]
  split
  case h_1 => exact hv.inv_write _ (hv.inv_load i h)
  case h_2 => exact hv.inv_load i h

-- A task that does not write is as good as not there.
theorem System.Views.view_alone_none (hv : sys.Views view Inv) {s : σ} (h : Inv s)
    (hr : sys.read i s = none) : view (sys.alone i s) = view s := by
  simp only [alone, hr]
  exact hv.view_load i h

theorem System.Views.view_alone_some (hv : sys.Views view Inv) {s : σ} (h : Inv s) {out : κ}
    (hr : sys.read i s = some out) : view (sys.alone i s) = view (sys.write out s) := by
  simp only [alone, hr]
  exact hv.view_write out (hv.view_load i h)

theorem Serial.start (h : Inv s₀) : Serial sys view Inv s₀ [] { store := s₀ } where
  inv := h
  inv' := h
  nodup := .nil
  settled := by simp [Task.Settled]
  store := rfl
  le := by simp
  current := by simp

variable [DecidableEq ι]

theorem Serial.load (hv : sys.Views view Inv) (h : Serial sys view Inv s₀ order s)
    (hi : s.task i = .idle) :
    ∃ order', Serial sys view Inv s₀ order' { s with
      store := sys.load i s.store
      task := Function.update s.task i (.loaded s.version (sys.read i s.store))
    } := by
  have hn : i ∉ order := fun hm => by simpa [hi, Task.Settled] using (h.settled i).mp hm
  have hl := hv.view_load i h.inv
  have hle j v out (hj : Function.update s.task i (.loaded s.version (sys.read i s.store)) j =
      .loaded v out) : v ≤ s.version := by
    by_cases he : j = i
    case pos => simp_all
    case neg => exact h.le j v out (by simpa [he] using hj)
  have hcur j v out (hj : Function.update s.task i (.loaded s.version (sys.read i s.store)) j =
      .loaded v (some out)) (hv' : v = s.version) : sys.read j (sys.load i s.store) = some out := by
    rw [hv.view_read j hl]
    by_cases he : j = i
    case pos => simp_all
    case neg => exact h.current j v out (by simpa [he] using hj) hv'
  cases hr : sys.read i s.store
  case none =>
    -- A task that does not write takes its place in the order when it loads.
    have hr' : sys.read i (sys.serial order s₀) = none := hv.view_read i h.store ▸ hr
    refine ⟨order ++ [i], hv.inv_load i h.inv, ?_, ?_, fun j => ?_, ?_, hr ▸ hle, hr ▸ hcur⟩
    · rw [System.serial_append]
      exact hv.inv_alone h.inv'
    · simpa using h.nodup.concat hn
    · by_cases he : j = i <;> simp [he, Task.Settled, h.settled]
    · rw [System.serial_append, hv.view_alone_none h.inv' hr', ← h.store, hl]
  case some out =>
    refine ⟨order, hv.inv_load i h.inv, h.inv', h.nodup, fun j => ?_, hl.trans h.store,
      hr ▸ hle, hr ▸ hcur⟩
    by_cases he : j = i <;> simp [he, Task.Settled, hn, h.settled]

theorem Serial.save (hv : sys.Views view Inv) (h : Serial sys view Inv s₀ order s) {v : Nat} {out : κ}
    (hi : s.task i = .loaded v (some out)) (he : v = s.version) :
    Serial sys view Inv s₀ (order ++ [i]) {
      store := sys.write out s.store
      version := s.version + 1
      task := Function.update s.task i .done
    } := by
  have hn : i ∉ order := fun hm => by simpa [hi, Task.Settled] using (h.settled i).mp hm
  have hr : sys.read i (sys.serial order s₀) = some out :=
    hv.view_read i h.store ▸ h.current i v out hi he
  refine ⟨hv.inv_write out h.inv, ?_, ?_, fun j => ?_, ?_, fun j v' out' hj => ?_,
    fun j v' out' hj hv' => ?_⟩
  · rw [System.serial_append]
    exact hv.inv_alone h.inv'
  · simpa using h.nodup.concat hn
  · by_cases he : j = i <;> simp [he, Task.Settled, h.settled]
  · rw [System.serial_append, hv.view_alone_some h.inv' hr]
    exact hv.view_write out h.store
  · by_cases he : j = i
    case pos => simp [he] at hj
    case neg => exact Nat.le_succ_of_le (h.le j v' out' (by simpa [he] using hj))
  · by_cases he : j = i
    case pos => simp [he] at hj
    case neg =>
      have := h.le j v' _ (by simpa [he] using hj)
      simp only at hv'
      omega

theorem Serial.finish (h : Serial sys view Inv s₀ order s) {v : Nat}
    (hi : s.task i = .loaded v none) :
    Serial sys view Inv s₀ order { s with task := Function.update s.task i .done } := by
  have hm : i ∈ order := (h.settled i).mpr (by simp [hi, Task.Settled])
  refine ⟨h.inv, h.inv', h.nodup, fun j => ?_, h.store, fun j v' out' hj => ?_,
    fun j v' out' hj hv' => ?_⟩
  · by_cases he : j = i <;> simp [he, Task.Settled, hm, h.settled]
  · by_cases he : j = i
    case pos => simp [he] at hj
    case neg => exact h.le j v' out' (by simpa [he] using hj)
  · by_cases he : j = i
    case pos => simp [he] at hj
    case neg => exact h.current j v' out' (by simpa [he] using hj) hv'

theorem Serial.step {e : Event ι} (hv : sys.Views view Inv) (h : Serial sys view Inv s₀ order s)
    (hs : Step sys s e s') (hu : Undisturbed s e) : ∃ order', Serial sys view Inv s₀ order' s' := by
  cases hs
  case load i hi       => exact h.load hv hi
  case save i v out hi => exact ⟨_, h.save hv hi (hu v out hi)⟩
  case finish i v hi   => exact ⟨_, h.finish hi⟩

theorem UndisturbedRun.serial {es : List (Event ι)} (hr : UndisturbedRun sys s es s')
    (hv : sys.Views view Inv) (h : Serial sys view Inv s₀ order s) :
    ∃ order', Serial sys view Inv s₀ order' s' := by
  induction hr generalizing order
  case refl => exact ⟨order, h⟩
  case trans hu hs _ hi =>
    have ⟨_, h'⟩ := h.step hv hs hu
    exact hi h'

-- When all tasks have finished, the store looks as if they had run in some order.
theorem UndisturbedRun.serializable {es : List (Event ι)}
    (hr : UndisturbedRun sys { store := s₀ } es s') (hv : sys.Views view Inv) (h₀ : Inv s₀)
    (hd : ∀ i, s'.task i = .done) :
    ∃ order : List ι, order.Nodup ∧ (∀ i, i ∈ order) ∧ view s'.store = view (sys.serial order s₀) := by
  have ⟨order, h⟩ := hr.serial hv (.start h₀)
  exact ⟨order, h.nodup, fun i => (h.settled i).mpr (by simp [hd i, Task.Settled]), h.store⟩

end
end ReadModifyWrite
