import JammVpn.Cli.Store
import JammVpn.Cli.Theorems.Keeps
import JammVpn.Core.Theorems.Secret

namespace JammVpn

-- An operation, and what goes wrong while it runs.
structure Step where
  op     : Op
  faults : Faults := {}

namespace Disk

section Saving

variable (store : SecretStore)

-- What a load without a fault finds.
def stored (disk : Disk) : AppConfig :=
  disk.contents store none

def LoadFails (fault : Option LoadFault) (disk : Disk) : Prop :=
  ∃ rows e, disk.source = some rows ∧ read store fault rows = .error e

-- Only the old file is there: a database that a failed save leaves behind would hide it.
def Legacy (disk : Disk) : Prop :=
  disk.db = none ∧ disk.json ≠ none

def CanSave (fault : Option SaveFault) (cfg : AppConfig) : Prop :=
  fault = none ∧ (protectConfig cfg store).2 = .ok ()

variable {store} {disk : Disk} {cfg : AppConfig} {fault : Option SaveFault}

theorem save_of_canSave (h : CanSave store fault cfg) :
    ∃ rows, protectConfig cfg store = (rows, .ok ()) ∧
      disk.save store fault cfg = ({ disk with db := some rows }, true) := by
  have ⟨hf, hp⟩ := h
  have hr : protectConfig cfg store = ((protectConfig cfg store).1, .ok ()) := by rw [← hp]
  exact ⟨_, hr, by rw [save, hr, hf]⟩

-- A failed save changes nothing, except that it can create an empty database.
theorem save_of_not_canSave (h : ¬CanSave store fault cfg) :
    disk.save store fault cfg = (disk, false) ∨
    fault = some .commit ∧
      disk.save store fault cfg = ({ disk with db := some (disk.db.getD {}) }, false) := by
  cases hp : protectConfig cfg store
  case mk rows r =>
    cases r
    case error e => exact .inl (by simp only [save, hp])
    case ok =>
      cases fault
      case none => exact absurd ⟨rfl, by rw [hp]⟩ h
      case some f =>
        cases f
        case early  => exact .inl (by simp only [save, hp])
        case commit => exact .inr ⟨rfl, by simp only [save, hp]⟩

theorem save_unchanged (h : ¬CanSave store fault cfg) (hd : fault = some .commit → disk.db ≠ none) :
    disk.save store fault cfg = (disk, false) := by
  obtain hs | ⟨hf, hs⟩ := @save_of_not_canSave store disk cfg fault h
  case inl => exact hs
  case inr =>
    have ⟨rows, hr⟩ := Option.ne_none_iff_exists'.mp (hd hf)
    have he : { disk with db := some (disk.db.getD {}) } = disk := by
      rw [hr, Option.getD_some, ← hr]
    rw [hs, he]

theorem stored_of_protected {rows : AppConfig} (h : store.Lawful) (hc : cfg.Clear)
    (hp : protectConfig cfg store = (rows, .ok ())) (hd : disk.db = some rows) :
    disk.stored store = cfg := by
  have hu := unprotectConfig_protectConfig h hc hp
  simp [stored, contents, source, hd, read, hu, Except.toOption]

theorem stored_save (h : store.Lawful) (hc : cfg.Clear) (hs : CanSave store fault cfg) :
    (disk.save store fault cfg).1.stored store = cfg := by
  have ⟨rows, hp, he⟩ := @save_of_canSave store disk cfg fault hs
  exact stored_of_protected h hc hp (by rw [he])

theorem stored_failed_save (h : ¬CanSave store fault cfg) (hd : fault = some .commit → ¬disk.Legacy) :
    (disk.save store fault cfg).1.stored store = disk.stored store := by
  by_cases hn : disk.db = none
  case neg => rw [save_unchanged h fun _ => hn]
  case pos =>
    obtain hs | ⟨hf, hs⟩ := @save_of_not_canSave store disk cfg fault h
    case inl => rw [hs]
    case inr =>
      -- Neither file was there: nothing was stored, and an empty database is as empty.
      have hj : disk.json = none := by
        cases hj : disk.json
        case none   => rfl
        case some _ => exact absurd ⟨hn, by simp [hj]⟩ (hd hf)
      simp only [hs, stored, contents, source, hn, hj]
      rfl

end Saving

section Loading

variable {store : SecretStore} {disk : Disk} {fault : Option LoadFault}

theorem unprotecting_broken (v : String) :
    (∃ e, (broken store).unprotecting v = some (.error e)) ∨
    store.unprotecting v = (broken store).unprotecting v := by
  simp only [SecretStore.unprotecting]
  cases Text.stripPrefix encPrefix v.toList
  case none => exact .inr rfl
  case some b64 =>
    refine .inl ?_
    simp only [Option.map_some, SecretStore.unprotectValue]
    cases Base64.decodeLoose (.ofList b64)
    case error => exact ⟨_, rfl⟩
    case ok    => exact ⟨_, rfl⟩

theorem read_of_ok {rows cfg : AppConfig} (h : read store fault rows = .ok cfg) :
    read store none rows = .ok cfg := by
  cases fault
  case none => exact h
  case some f =>
    cases f
    case cannotOpen => cases h
    case decode     => cases h
    case unprotect  =>
      simp only [read, if_true] at h
      split at h
      case h_1 cfg' hu =>
        cases h
        have hu' := unprotectConfig_of_weaker (@unprotecting_broken store) hu
        simp [read, hu']
      case h_2 => cases h

theorem contents_of_loadFails (h : disk.LoadFails store fault) : disk.contents store fault = {} := by
  have ⟨rows, e, hs, hr⟩ := h
  simp [contents, hs, hr, Except.toOption]

theorem contents_of_not_loadFails (h : ¬disk.LoadFails store fault) :
    disk.contents store fault = disk.stored store := by
  simp only [stored, contents]
  cases hs : disk.source
  case none => rfl
  case some rows =>
    cases hr : read store fault rows
    case error e => exact absurd ⟨rows, e, hs, hr⟩ h
    case ok cfg  => simp [hr, read_of_ok hr]

theorem db_ne_none_of_not_legacy (h : disk.LoadFails store fault) (hl : ¬disk.Legacy) :
    disk.db ≠ none := by
  intro hd
  have ⟨rows, _, hs, _⟩ := h
  exact hl ⟨hd, fun hj => by simp [source, hd, hj] at hs⟩

end Loading

section Migration

variable {store : SecretStore} {disk : Disk} {faults : Faults}

theorem migrate_of_not_legacy (h : ¬disk.Legacy) : disk.migrate store faults = disk := by
  simp only [migrate]
  split
  case h_1 old hd hj => exact absurd ⟨hd, by simp [hj]⟩ h
  case h_2           => rfl

theorem migrate_unchanged (h : ¬CanSave store faults.migrate (disk.contents store faults.load))
    (hm : disk.Legacy → faults.migrate ≠ some .commit) : disk.migrate store faults = disk := by
  by_cases hl : disk.Legacy
  case neg => exact migrate_of_not_legacy hl
  case pos =>
    have ⟨old, hj⟩ := Option.ne_none_iff_exists'.mp hl.2
    simp only [migrate, hl.1, hj, save_unchanged h fun hf => absurd hf (hm hl)]

-- The contents of the database come before those of the old file.
theorem db_migrate (h : CanSave store faults.migrate (disk.contents store faults.load))
    (hl : disk.Legacy) : ∃ rows, protectConfig (disk.contents store faults.load) store = (rows, .ok ()) ∧
      (disk.migrate store faults).db = some rows := by
  have ⟨old, hj⟩ := Option.ne_none_iff_exists'.mp hl.2
  have ⟨rows, hp, hs⟩ := @save_of_canSave store disk _ _ h
  refine ⟨rows, hp, ?_⟩
  simp only [migrate, hl.1, hj, hs]
  split <;> rfl

theorem stored_migrate (h : store.Lawful) (hf : disk.contents store faults.load = disk.stored store)
    (hc : disk.Legacy → (disk.stored store).Clear)
    (hm : disk.Legacy → faults.migrate ≠ some .commit) :
    (disk.migrate store faults).stored store = disk.stored store := by
  by_cases hs : CanSave store faults.migrate (disk.contents store faults.load)
  case neg => rw [migrate_unchanged hs hm]
  case pos =>
    by_cases hl : disk.Legacy
    case neg => rw [migrate_of_not_legacy hl]
    case pos =>
      have ⟨rows, hp, hd⟩ := db_migrate hs hl
      exact stored_of_protected h (hc hl) (hf ▸ hp) hd

end Migration
end Disk

-- The part of a loaded configuration that matters here is the stored one.
section Sanitize

variable {cfg : AppConfig}

theorem mem_bodies_sanitizeConfig {body : ServerProfile} :
    (∃ s ∈ (sanitizeConfig cfg).servers, s.body = body) ↔ ∃ s ∈ cfg.servers, s.body = body := by
  simp only [← List.mem_map, sanitizeConfig, ensureDistinctNodeNames, bodies_distinctNodeNames]

theorem has_sanitizeConfig {item : Item} (h : cfg.Has item) : (sanitizeConfig cfg).Has item := by
  cases item
  case server       => exact mem_bodies_sanitizeConfig.mpr h
  case rule         => exact h
  case subscription => exact h

theorem clear_sanitizeConfig (h : cfg.Clear) : (sanitizeConfig cfg).Clear := by
  refine ⟨fun s hs => ?_, h.2⟩
  have ⟨s', hs', he⟩ := mem_bodies_sanitizeConfig.mp ⟨s, hs, rfl⟩
  have hp : s'.params = s.params := congrArg (·.params) he
  have hc := h.1 s' hs'
  rwa [ServerProfile.Clear, hp] at hc

theorem sanitizeConfig_default : sanitizeConfig {} = {} := by
  decide

end Sanitize

namespace Step

variable (store : SecretStore)

def run (s : Step) (disk : Disk) : Disk :=
  s.op.run store s.faults disk

-- What the operation works on.
def loaded (s : Step) (disk : Disk) : AppConfig :=
  (disk.loadConfig store s.faults).2

-- A step that does no harm rejects its arguments, or loads what is stored, or saves nothing. While
-- only the old file is there, no save may fail once it has created the database.
inductive Harmless (s : Step) (disk : Disk) : Prop
  | rejected {e : String} : s.op.plan = .error e → Harmless s disk
  | loaded :
    ¬disk.LoadFails store s.faults.load →
    (disk.Legacy → s.faults.migrate ≠ some .commit ∧
      (s.faults.save = some .commit → Disk.CanSave store s.faults.migrate (disk.stored store))) →
    Harmless s disk
  | unsaved :
    disk.LoadFails store s.faults.load →
    (disk.Legacy → s.faults.migrate = some .early ∧ s.faults.save ≠ some .commit) →
    (∀ cfg, s.op.write {} = some cfg → ¬Disk.CanSave store s.faults.save cfg) →
    Harmless s disk

variable {store} {s : Step} {disk : Disk}

theorem run_rejected {e : String} (h : s.op.plan = .error e) : s.run store disk = disk := by
  simp only [run, Op.run, h]

theorem run_unwritten (h : s.op.write (s.loaded store disk) = none) :
    s.run store disk = disk ∨ s.run store disk = disk.migrate store s.faults := by
  simp only [run, Op.run]
  split
  case h_1 => exact .inl rfl
  case h_2 =>
    refine .inr ?_
    simp only [loaded, Disk.loadConfig] at h
    simp only [Disk.loadConfig, h]

theorem run_written {cfg : AppConfig} (h : s.op.write (s.loaded store disk) = some cfg) :
    s.run store disk = ((disk.migrate store s.faults).save store s.faults.save cfg).1 := by
  simp only [run, Op.run]
  split
  case h_1 hp =>
    simp only [Op.write, hp] at h
    cases h
  case h_2 =>
    simp only [loaded, Disk.loadConfig] at h
    simp only [Disk.loadConfig, h]

-- A step whose load fails changes no file, if it does no harm.
theorem Harmless.run_of_loadFails (h : s.Harmless store disk)
    (hf : disk.LoadFails store s.faults.load) : s.run store disk = disk := by
  cases h
  case rejected e hp => exact run_rejected hp
  case loaded hn _   => exact absurd hf hn
  case unsaved hl hw =>
    have hm : disk.migrate store s.faults = disk := by
      by_cases hg : disk.Legacy
      case neg => exact Disk.migrate_of_not_legacy hg
      case pos =>
        refine Disk.migrate_unchanged (fun hs => ?_) fun _ => by simp [(hl hg).1]
        simp [(hl hg).1, Disk.CanSave] at hs
    have he : s.loaded store disk = {} := by
      simp only [Step.loaded, Disk.loadConfig, Disk.contents_of_loadFails hf, sanitizeConfig_default]
    cases hc : s.op.write (s.loaded store disk)
    case none     => simpa [hm] using @run_unwritten store s disk hc
    case some cfg =>
      have hd (hs : s.faults.save = some .commit) : disk.db ≠ none :=
        Disk.db_ne_none_of_not_legacy hf fun hg => (hl hg).2 hs
      rw [run_written hc, hm, Disk.save_unchanged (hw cfg (he ▸ hc)) hd]

-- What is stored afterwards is what was stored before, or what the operation made of it.
theorem Harmless.stored_run (h : s.Harmless store disk) (hl : store.Lawful)
    (hc : (disk.stored store).Clear) (ho : s.op.Clear) :
    (s.run store disk).stored store = disk.stored store ∨
    s.loaded store disk = sanitizeConfig (disk.stored store) ∧
      s.op.write (s.loaded store disk) = some ((s.run store disk).stored store) := by
  by_cases hf : disk.LoadFails store s.faults.load
  case pos => exact .inl (by rw [h.run_of_loadFails hf])
  case neg =>
    cases h
    case rejected e hp    => exact .inl (by rw [run_rejected hp])
    case unsaved hf' _ _  => exact absurd hf' hf
    case loaded _ hm      =>
      have he : s.loaded store disk = sanitizeConfig (disk.stored store) := by
        simp only [Step.loaded, Disk.loadConfig, Disk.contents_of_not_loadFails hf]
      have hs := Disk.stored_migrate hl (Disk.contents_of_not_loadFails hf) (fun _ => hc)
        fun hg => (hm hg).1
      cases hw : s.op.write (s.loaded store disk)
      case none =>
        obtain hr | hr := @run_unwritten store s disk hw
        case inl => exact .inl (by rw [hr])
        case inr => exact .inl (by rw [hr, hs])
      case some cfg =>
        have hcfg : cfg.Clear := (Op.write_keeps hw).clear (he ▸ clear_sanitizeConfig hc) ho
        rw [run_written hw]
        by_cases hv : Disk.CanSave store s.faults.save cfg
        case pos => exact .inr ⟨he, by rw [Disk.stored_save hl hcfg hv]⟩
        case neg =>
          refine .inl ((Disk.stored_failed_save hv fun hsv hg => ?_).trans hs)
          by_cases hg' : disk.Legacy
          case neg => exact hg' (Disk.migrate_of_not_legacy hg' ▸ hg)
          case pos =>
            have hcs := (hm hg').2 hsv
            rw [← Disk.contents_of_not_loadFails hf] at hcs
            have ⟨rows, _, hd⟩ := Disk.db_migrate hcs hg'
            exact absurd (hd.symm.trans hg.1) (by simp)

theorem Harmless.keeps (h : s.Harmless store disk) (hl : store.Lawful)
    (hc : (disk.stored store).Clear) (ho : s.op.Clear) {item : Item}
    (hi : (disk.stored store).Has item) (hr : ¬s.op.Removes (s.loaded store disk) item) :
    ((s.run store disk).stored store).Has item := by
  obtain hs | ⟨he, hw⟩ := h.stored_run hl hc ho
  case inl => rwa [hs]
  case inr =>
    have hk := Op.write_keeps hw
    have hi' := he ▸ has_sanitizeConfig hi
    cases item
    case server body =>
      have ⟨p, hp, hb⟩ := hi'
      exact ⟨p, hk.server p hp fun hd => hr ⟨p, hp, hb, hd⟩, hb⟩
    case rule r           => exact hk.rule r hi' hr
    case subscription url => exact hk.subscription url hi' hr

theorem Harmless.clear (h : s.Harmless store disk) (hl : store.Lawful)
    (hc : (disk.stored store).Clear) (ho : s.op.Clear) :
    ((s.run store disk).stored store).Clear := by
  obtain hs | ⟨he, hw⟩ := h.stored_run hl hc ho
  case inl => rwa [hs]
  case inr => exact (Op.write_keeps hw).clear (he ▸ clear_sanitizeConfig hc) ho

end Step

namespace Disk

variable (store : SecretStore)

def runSteps (disk : Disk) : List Step → Disk
  | []      => disk
  | s :: ss => (s.run store disk).runSteps ss

-- Every step does no harm, and brings no secret that looks like an encrypted one.
def HarmlessRun (disk : Disk) : List Step → Prop
  | []      => True
  | s :: ss => s.Harmless store disk ∧ s.op.Clear ∧ (s.run store disk).HarmlessRun ss

-- Some operation is asked to remove the item from what it has loaded.
def Removed (item : Item) (disk : Disk) : List Step → Prop
  | []      => False
  | s :: ss => s.op.Removes (s.loaded store disk) item ∨ (s.run store disk).Removed item ss

variable {store} {disk : Disk} {steps : List Step}

theorem HarmlessRun.has (h : disk.HarmlessRun store steps) (hl : store.Lawful)
    (hc : (disk.stored store).Clear) {item : Item} (hi : (disk.stored store).Has item)
    (hr : ¬disk.Removed store item steps) : ((disk.runSteps store steps).stored store).Has item := by
  induction steps generalizing disk
  case nil => exact hi
  case cons s ss ih =>
    have ⟨hs, ho, hss⟩ := h
    have ⟨hn, hrs⟩ := not_or.mp hr
    exact ih hss (hs.clear hl hc ho) (hs.keeps hl hc ho hi hn) hrs

theorem HarmlessRun.harmless {pre post : List Step} {s : Step}
    (h : disk.HarmlessRun store (pre ++ s :: post)) : s.Harmless store (disk.runSteps store pre) := by
  induction pre generalizing disk
  case nil        => exact h.1
  case cons _ _ ih => exact ih h.2.2

theorem harmless_run_erases_nothing (hl : store.Lawful) (hc : (disk.stored store).Clear)
    (h : disk.HarmlessRun store steps) :
    (∀ item, (disk.stored store).Has item → ¬disk.Removed store item steps →
      ((disk.runSteps store steps).stored store).Has item) ∧
    ∀ pre s post, steps = pre ++ s :: post →
      (disk.runSteps store pre).LoadFails store s.faults.load →
      s.run store (disk.runSteps store pre) = disk.runSteps store pre := by
  refine ⟨fun item hi hr => h.has hl hc hi hr, ?_⟩
  rintro pre s post rfl hf
  exact h.harmless.run_of_loadFails hf

def socksServer : ServerProfile where
  name := "a"
  protocol := .socks5
  address := "h"
  port := 1080
  params := .empty
  tags := []

-- One server is stored, and the store encrypts nothing.
def oneServer : Disk where
  db := some { servers := [socksServer] }

def addDirect (faults : Faults) : Step where
  op := .addRule { action := "direct" }
  faults

def removeUnreadable : Step where
  op := .removeNode "a"
  faults := { load := some .cannotOpen }

theorem noopStore_lawful : noopStore.Lawful := by
  rintro plain blob ⟨⟩
  rfl

theorem oneServer_clear : (oneServer.stored noopStore).Clear := by
  refine ⟨fun s hs k _ v hv => ?_, fun lw hlw => by cases hlw⟩
  cases hs
  case head    => cases hv
  case tail hs => cases hs

-- A node cannot be removed from a configuration that cannot be read; the rule comes later.
theorem oneServer_harmless : oneServer.HarmlessRun noopStore [removeUnreadable, addDirect {}] := by
  refine ⟨.unsaved ⟨_, _, rfl, rfl⟩ (fun h => by cases h.1) (fun cfg h => by cases h), trivial, ?_⟩
  refine ⟨.loaded (fun ⟨_, _, hs, hr⟩ => ?_) (fun h => by cases h.1), trivial, trivial⟩
  cases hs
  cases hr

theorem harmless_run_erases_nothing_oneServer :
    (oneServer.stored noopStore).Has (.server socksServer.body) ∧
      ((oneServer.runSteps noopStore [removeUnreadable, addDirect {}]).stored noopStore).Has
        (.server socksServer.body) := by
  have hi : (oneServer.stored noopStore).Has (.server socksServer.body) := ⟨_, .head _, rfl⟩
  refine ⟨hi, ?_⟩
  refine (harmless_run_erases_nothing noopStore_lawful oneServer_clear oneServer_harmless).1
    (.server socksServer.body) hi ?_
  rintro (⟨p, hp, -⟩ | ⟨p, hp, -, hd⟩ | h)
  · cases hp
  · exact hd
  · exact h

theorem failed_load_erases_server :
    noopStore.Lawful ∧ (oneServer.stored noopStore).Clear ∧
    (∃ s ∈ (oneServer.stored noopStore).servers,
      ¬oneServer.Removed noopStore (.server s.body) [addDirect { load := some .cannotOpen }] ∧
      ¬((oneServer.runSteps noopStore [addDirect { load := some .cannotOpen }]).stored noopStore).Has
        (.server s.body)) := by
  refine ⟨noopStore_lawful, oneServer_clear, _, .head _, ?_, ?_⟩
  · rintro (⟨p, hp, -⟩ | h)
    · cases hp
    · exact h
  · rintro ⟨p, hp, -⟩
    cases hp

end Disk
end JammVpn
