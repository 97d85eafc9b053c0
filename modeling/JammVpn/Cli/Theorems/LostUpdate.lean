import JammVpn.Lib.ReadModifyWrite
import JammVpn.Cli.Theorems.FailedLoad

namespace JammVpn

open ReadModifyWrite

-- Operations as tasks on the files. Any time can pass between a load and its save, and nothing holds
-- the files meanwhile.
def Op.system {ι : Type} (ops : ι → Op) (store : SecretStore) : System ι Disk AppConfig where
  load i disk :=
    match (ops i).plan with
    | .error _ => disk
    | .ok _    => (disk.loadConfig store {}).1
  read i disk := (ops i).write (disk.loadConfig store {}).2
  write cfg disk := (disk.save store none cfg).1

section System

variable {ι : Type} {ops : ι → Op} {store : SecretStore} {disk : Disk}

-- A task that runs alone is an operation that runs.
theorem Op.alone_system (i : ι) : (system ops store).alone i disk = (ops i).run store {} disk := by
  simp only [System.alone, system, run]
  split
  case h_1 out hw =>
    cases hp : (ops i).plan
    case error e => simp [write, hp] at hw
    case ok      => simp [hw]
  case h_2 hw =>
    cases hp : (ops i).plan
    case error e => rfl
    case ok      => simp [hw]

theorem Op.serial_system (order : List ι) :
    (system ops store).serial order disk =
      disk.runSteps store (order.map fun i => { op := ops i }) := by
  induction order generalizing disk
  case nil => rfl
  case cons i is hi =>
    rw [List.map_cons, Disk.runSteps, ← hi, Step.run, ← alone_system]
    rfl

theorem Disk.stored_congr {disk' : Disk} {rows : AppConfig} (h : disk.db = some rows)
    (h' : disk'.db = some rows) : disk.stored store = disk'.stored store := by
  simp [stored, contents, source, h, h']

theorem Disk.legacy_migrate {faults : Faults} (hm : faults.migrate ≠ some .commit)
    (hl : (disk.migrate store faults).Legacy) : disk.migrate store faults = disk := by
  by_cases hg : disk.Legacy
  case neg => exact migrate_of_not_legacy hg
  case pos =>
    by_cases hs : CanSave store faults.migrate (disk.contents store faults.load)
    case neg => exact migrate_unchanged hs fun _ => hm
    case pos =>
      have ⟨rows, _, hd⟩ := db_migrate hs hg
      exact absurd (hd.symm.trans hl.1) (by simp)

theorem Op.views_system (h : store.Lawful) :
    (system ops store).Views (Disk.stored store)
      (fun disk => disk.Legacy → (disk.stored store).Clear) where
  inv_load {disk} i hc := by
    simp only [system]
    split
    case h_1 => exact hc
    case h_2 =>
      intro hl
      have he : (disk.loadConfig store {}).1 = disk := Disk.legacy_migrate (by simp) hl
      rw [he] at hl ⊢
      exact hc hl
  inv_write {disk} cfg hc := by
    intro hl
    by_cases hs : Disk.CanSave store none cfg
    case neg =>
      have he := @Disk.save_unchanged store disk cfg none hs (by simp)
      simp only [system, he] at hl ⊢
      exact hc hl
    case pos =>
      have ⟨rows, _, he⟩ := @Disk.save_of_canSave store disk cfg none hs
      simp [system, he, Disk.Legacy] at hl
  view_load {disk} i hc := by
    simp only [system]
    split
    case h_1 => rfl
    case h_2 => exact Disk.stored_migrate h rfl hc fun _ => by simp
  view_read {disk disk'} i hd := by
    simp only [system, Disk.loadConfig]
    exact congrArg (fun cfg => (ops i).write (sanitizeConfig cfg)) hd
  view_write {disk disk'} cfg hd := by
    simp only [system]
    by_cases hs : Disk.CanSave store none cfg
    case neg =>
      rw [Disk.save_unchanged hs (by simp), Disk.save_unchanged hs (by simp)]
      exact hd
    case pos =>
      have ⟨rows, hp, he⟩ := @Disk.save_of_canSave store disk cfg none hs
      have ⟨rows', hp', he'⟩ := @Disk.save_of_canSave store disk' cfg none hs
      have hr : rows = rows' := congrArg (·.1) (hp.symm.trans hp')
      exact Disk.stored_congr (by rw [he]) (by rw [he', hr])

-- No update is lost in a run in which no operation that saves was overtaken by another one.
theorem undisturbed_operations_serializable [DecidableEq ι] {es : List (Event ι)}
    {s : State ι Disk AppConfig} (h : store.Lawful) (hc : disk.Legacy → (disk.stored store).Clear)
    (hr : UndisturbedRun (Op.system ops store) { store := disk } es s)
    (hd : ∀ i, s.task i = .done) :
    ∃ order : List ι, order.Nodup ∧ (∀ i, i ∈ order) ∧
      s.store.stored store =
        (disk.runSteps store (order.map fun i => { op := ops i })).stored store := by
  have ⟨order, hn, hm, hs⟩ := hr.serializable (Op.views_system h) hc hd
  exact ⟨order, hn, hm, hs.trans (by rw [Op.serial_system])⟩

end System

-- A rule is added while a node is looked for that is not there.
def removeAndAdd : Bool → Op
  | false => .removeNode "a"
  | true  => .addRule { action := "direct" }

-- The rule is saved while the other operation has what it has loaded, which it does not save.
theorem undisturbed_operations_serializable_removeAndAdd :
    ∃ s : State Bool Disk AppConfig,
      UndisturbedRun (Op.system removeAndAdd noopStore) { store := {} }
        [.load false, .load true, .save true, .save false] s ∧
      s.store.db ≠ none ∧
      ∃ order : List Bool, order.Nodup ∧ (∀ i, i ∈ order) ∧
        s.store.stored noopStore =
          (Disk.runSteps noopStore {} (order.map fun i => { op := removeAndAdd i })).stored noopStore := by
  have hr : UndisturbedRun (Op.system removeAndAdd noopStore) { store := {} }
      [.load false, .load true, .save true, .save false] _ :=
    .trans trivial (.load rfl) <|
    .trans trivial (.load rfl) <|
    .trans (fun v out hv => by cases hv; rfl) (.save rfl) <|
    .trans (fun v out hv => by cases hv) (.finish rfl) <| .refl _
  refine ⟨_, hr, Option.some_ne_none _, undisturbed_operations_serializable Disk.noopStore_lawful
    (fun h => by cases h.2 rfl) hr ?_⟩
  intro i
  cases i <;> rfl

-- A rule is added while the subscriptions are being updated.
def updateAndAdd : Bool → Op
  | false => .updateSubscriptions fun _ => .error "timeout"
  | true  => .addRule { action := "direct" }

-- Both orders add the rule.
theorem both_orders {order : List Bool} (hn : order.Nodup) (hm : ∀ i, i ∈ order) :
    order = [false, true] ∨ order = [true, false] := by
  have hp : order.Perm [false, true] :=
    (List.perm_ext_iff_of_nodup hn (by decide)).mpr (by simp [hm])
  match order, hp.length_eq with
  | [a, b], _ => cases a <;> cases b <;> simp_all

theorem update_loses_added_rule :
    ∃ s : State Bool Disk AppConfig,
      Run (Op.system updateAndAdd noopStore) { store := {} }
        [.load false, .load true, .save true, .save false] s ∧
      (∀ i, s.task i = .done) ∧
      ∀ order : List Bool, order.Nodup → (∀ i, i ∈ order) →
        s.store.stored noopStore ≠
          (Disk.runSteps noopStore {} (order.map fun i => { op := updateAndAdd i })).stored noopStore := by
  have hr : Run (Op.system updateAndAdd noopStore) { store := {} }
      [.load false, .load true, .save true, .save false] _ :=
    .trans (.load rfl) <| .trans (.load rfl) <| .trans (.save rfl) <| .trans (.save rfl) <| .refl _
  refine ⟨_, hr, fun i => by cases i <;> rfl, fun order hn hm he => ?_⟩
  have hrules := congrArg (·.rules.length) he
  obtain rfl | rfl := both_orders hn hm
  case inl => cases hrules
  case inr => cases hrules

end JammVpn
