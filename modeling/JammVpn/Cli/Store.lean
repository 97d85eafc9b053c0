import JammVpn.Core.Secret
import JammVpn.Cli.Operations

namespace JammVpn

-- The files of the configuration, with encrypted secrets: the database, the JSON file from before
-- there was a database, and the backup that its migration leaves. Rows and texts stand for the values
-- that they encode.
structure Disk where
  db   : Option AppConfig := none
  json : Option AppConfig := none
  bak  : Option AppConfig := none
  deriving DecidableEq

inductive LoadFault
  | cannotOpen
  | decode
  | unprotect
  deriving DecidableEq

-- A save fails early, or when the database has been opened, and so exists, but is not yet written.
inductive SaveFault
  | early
  | commit
  deriving DecidableEq

-- What goes wrong while an operation runs.
structure Faults where
  load    : Option LoadFault := none
  migrate : Option SaveFault := none
  rename  : Bool := false
  save    : Option SaveFault := none

inductive LoadError
  | cannotOpen
  | decode
  | unprotect (e : SecretError)
  deriving DecidableEq

namespace Disk

-- A store whose decryption fails.
def broken (store : SecretStore) : SecretStore :=
  { store with unprotect := fun _ => .error ⟨"unprotect"⟩ }

def read (store : SecretStore) (fault : Option LoadFault) (rows : AppConfig) :
    Except LoadError AppConfig :=
  match fault with
  | some .cannotOpen => .error .cannotOpen
  | some .decode     => .error .decode
  | fault            =>
    match unprotectConfig rows (if fault = some .unprotect then broken store else store) with
    | (cfg, .ok ()) => .ok cfg
    | (_, .error e) => .error (.unprotect e)

-- All rows are written in one transaction.
def save (store : SecretStore) (fault : Option SaveFault) (cfg : AppConfig) (disk : Disk) :
    Disk × Bool :=
  match protectConfig cfg store with
  | (_, .error _)  => (disk, false)
  | (rows, .ok ()) =>
    match fault with
    | some .early  => (disk, false)
    | some .commit => ({ disk with db := some (disk.db.getD {}) }, false)
    | none         => ({ disk with db := some rows }, true)

-- What the configuration is read from.
def source (disk : Disk) : Option AppConfig :=
  disk.db.or disk.json

-- An unreadable configuration counts as an empty one.
def contents (store : SecretStore) (fault : Option LoadFault) (disk : Disk) : AppConfig :=
  match disk.source with
  | some rows => (read store fault rows).toOption.getD {}
  | none      => {}

-- The old file is read once: its contents go to the database, and it is renamed.
def migrate (store : SecretStore) (faults : Faults) (disk : Disk) : Disk :=
  match disk.db, disk.json with
  | none, some old =>
    match disk.save store faults.migrate (disk.contents store faults.load) with
    | (disk, true)  => if faults.rename then disk else { disk with json := none, bak := some old }
    | (disk, false) => disk
  | _, _ => disk

def loadConfig (store : SecretStore) (faults : Faults) (disk : Disk) : Disk × AppConfig :=
  (disk.migrate store faults, sanitizeConfig (disk.contents store faults.load))

end Disk

-- One operation on the files.
def Op.run (store : SecretStore) (faults : Faults) (op : Op) (disk : Disk) : Disk :=
  match op.plan with
  | .error _ => disk
  | .ok _    =>
    let (disk, cfg) := disk.loadConfig store faults
    match op.write cfg with
    | none     => disk
    | some cfg => (disk.save store faults.save cfg).1

end JammVpn
