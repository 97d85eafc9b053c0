import JammVpn.Lib.Machine
import JammVpn.Windows.Attribution

namespace JammVpn.Attribution

-- The tables of one transport.
def Tables.rows (t : Tables) (tcp : Bool) : List Row :=
  if tcp then t.tcp else t.udp

def Tables.rows6 (t : Tables) (tcp : Bool) : List Row6 :=
  if tcp then t.tcp6 else t.udp6

-- A process owns a port that one of its rows has. A socket on `::` is also one of IPv4, unless the IPv4
-- table has the port.
inductive Owns (t : Tables) (pid : UInt32) : Key → Prop
  | v4 {tcp : Bool} {r : Row} : r ∈ t.rows tcp → r.owningPid = pid →
    Owns t pid (tcp, false, swapPort r.localPort)
  | v6 {tcp : Bool} {r : Row6} : r ∈ t.rows6 tcp → r.owningPid = pid →
    Owns t pid (tcp, true, swapPort r.localPort)
  | dualStack {tcp : Bool} {r : Row6} : r ∈ t.rows6 tcp → r.localAddr = 0 → r.owningPid = pid →
    (∀ r' ∈ t.rows tcp, swapPort r'.localPort ≠ swapPort r.localPort) →
    Owns t pid (tcp, false, swapPort r.localPort)

section Load

variable {tcp : Bool} {ports : Ports} {key : Key} {pid : UInt32}

-- Rows only add ports.
theorem foldl_keeps {ρ : Type} {f : Ports → ρ → Ports} {rows : List ρ}
    (hf : ∀ ports r, ports.get key ≠ none → (f ports r).get key ≠ none) (h : ports.get key ≠ none) :
    (rows.foldl f ports).get key ≠ none := by
  induction rows generalizing ports
  case nil            => exact h
  case cons r rows hi => exact hi (hf ports r h)

theorem foldl_has {ρ : Type} {f : Ports → ρ → Ports} {rows : List ρ} {r : ρ}
    (hf : ∀ ports r, ports.get key ≠ none → (f ports r).get key ≠ none)
    (hs : ∀ ports, (f ports r).get key ≠ none) (hr : r ∈ rows) : (rows.foldl f ports).get key ≠ none := by
  induction rows generalizing ports
  case nil => exact absurd hr List.not_mem_nil
  case cons r' rows hi =>
    rw [List.foldl_cons]
    obtain rfl | hr := List.mem_cons.mp hr
    case inl => exact foldl_keeps hf (hs ports)
    case inr => exact hi hr

theorem get_loadRow {r : Row} (h : (loadRow tcp ports r).get key = some pid) :
    ports.get key = some pid ∨ key = (tcp, false, swapPort r.localPort) ∧ r.owningPid = pid := by
  rw [loadRow, PartialMap.get_insert] at h
  split at h
  case isTrue hk  => exact .inr ⟨hk, Option.some.inj h⟩
  case isFalse hk => exact .inl h

theorem get_foldl_loadRow {rows : List Row} (h : (rows.foldl (loadRow tcp) ports).get key = some pid) :
    ports.get key = some pid ∨
      ∃ r ∈ rows, key = (tcp, false, swapPort r.localPort) ∧ r.owningPid = pid := by
  induction rows generalizing ports
  case nil => exact .inl h
  case cons r rows hi =>
    rcases hi h with h | ⟨r', hr, h⟩
    · exact (get_loadRow h).imp_right fun h => ⟨r, List.mem_cons_self, h⟩
    · exact .inr ⟨r', List.mem_cons_of_mem _ hr, h⟩

theorem loadRow_keeps (ports : Ports) (r : Row) (h : ports.get key ≠ none) :
    (loadRow tcp ports r).get key ≠ none :=
  PartialMap.get_insert_ne_none h _ _

theorem foldl_loadRow_has {rows : List Row} {r : Row} (hr : r ∈ rows) :
    (rows.foldl (loadRow tcp) ports).get (tcp, false, swapPort r.localPort) ≠ none := by
  refine foldl_has loadRow_keeps (fun ports => ?_) hr
  rw [loadRow, PartialMap.get_insert_self]
  exact Option.some_ne_none _

theorem get_loadRow6 {r : Row6} (h : (loadRow6 tcp ports r).get key = some pid) :
    ports.get key = some pid ∨ key = (tcp, true, swapPort r.localPort) ∧ r.owningPid = pid ∨
      key = (tcp, false, swapPort r.localPort) ∧ r.localAddr = 0 ∧ r.owningPid = pid ∧
        ports.get key = none := by
  have hne : ((tcp, false, swapPort r.localPort) : Key) ≠ (tcp, true, swapPort r.localPort) := by simp
  rw [loadRow6] at h
  split at h
  case isTrue hz =>
    rw [PartialMap.get_insert_of_ne _ _ hne] at hz
    rw [PartialMap.get_insert] at h
    split at h
    case isTrue hk  => exact .inr (.inr ⟨hk, hz.1, Option.some.inj h, hk ▸ hz.2⟩)
    case isFalse hk =>
      rw [PartialMap.get_insert] at h
      split at h
      case isTrue hk  => exact .inr (.inl ⟨hk, Option.some.inj h⟩)
      case isFalse hk => exact .inl h
  case isFalse hz =>
    rw [PartialMap.get_insert] at h
    split at h
    case isTrue hk  => exact .inr (.inl ⟨hk, Option.some.inj h⟩)
    case isFalse hk => exact .inl h

theorem loadRow6_keeps (ports : Ports) (r : Row6) (h : ports.get key ≠ none) :
    (loadRow6 tcp ports r).get key ≠ none := by
  have hi := PartialMap.get_insert_ne_none h (tcp, true, swapPort r.localPort) r.owningPid
  rw [loadRow6]
  split
  case isTrue  => exact PartialMap.get_insert_ne_none hi _ _
  case isFalse => exact hi

theorem get_foldl_loadRow6 {rows : List Row6} (h : (rows.foldl (loadRow6 tcp) ports).get key = some pid) :
    ports.get key = some pid ∨
      (∃ r ∈ rows, key = (tcp, true, swapPort r.localPort) ∧ r.owningPid = pid) ∨
      ∃ r ∈ rows, key = (tcp, false, swapPort r.localPort) ∧ r.localAddr = 0 ∧ r.owningPid = pid ∧
        ports.get key = none := by
  induction rows generalizing ports
  case nil => exact .inl h
  case cons r rows hi =>
    rcases hi h with h | ⟨r', hr, h⟩ | ⟨r', hr, hk, hz, hp, hn⟩
    · rcases get_loadRow6 h with h | h | h
      · exact .inl h
      · exact .inr (.inl ⟨r, List.mem_cons_self, h⟩)
      · exact .inr (.inr ⟨r, List.mem_cons_self, h⟩)
    · exact .inr (.inl ⟨r', List.mem_cons_of_mem _ hr, h⟩)
    · have hn : ports.get key = none := by
        refine Classical.byContradiction fun hs => ?_
        exact loadRow6_keeps ports r hs hn
      exact .inr (.inr ⟨r', List.mem_cons_of_mem _ hr, hk, hz, hp, hn⟩)

theorem foldl_loadRow6_has {rows : List Row6} {r : Row6} (hr : r ∈ rows) :
    (rows.foldl (loadRow6 tcp) ports).get (tcp, true, swapPort r.localPort) ≠ none := by
  refine foldl_has loadRow6_keeps (fun ports => ?_) hr
  have hi : (ports.insert (tcp, true, swapPort r.localPort) r.owningPid).get
      (tcp, true, swapPort r.localPort) ≠ none := by
    rw [PartialMap.get_insert_self]
    exact Option.some_ne_none _
  rw [loadRow6]
  split
  case isTrue  => exact PartialMap.get_insert_ne_none hi _ _
  case isFalse => exact hi

theorem foldl_loadRow6_has_alias {rows : List Row6} {r : Row6} (hr : r ∈ rows) (hz : r.localAddr = 0) :
    (rows.foldl (loadRow6 tcp) ports).get (tcp, false, swapPort r.localPort) ≠ none := by
  refine foldl_has loadRow6_keeps (fun ports => ?_) hr
  rw [loadRow6]
  split
  case isTrue =>
    rw [PartialMap.get_insert_self]
    exact Option.some_ne_none _
  case isFalse hn => exact fun he => hn ⟨hz, he⟩

end Load

-- What a load of the tables makes of them.
def portsOf (host : Host) : Ports :=
  loadUdp host true (loadUdp host false (loadTcp host true (loadTcp host false .empty)))

section Owns

variable {host : Host} {key : Key} {pid : UInt32}

theorem owns_of_listed (h : (portsOf host).get key = some pid) : Owns host.tables pid key := by
  simp only [portsOf, loadUdp, loadTcp, if_true, Bool.false_eq_true, if_false] at h
  rcases get_foldl_loadRow6 h with h | ⟨r, hr, hk, hp⟩ | ⟨r, hr, hk, hz, hp, hn⟩
  · rcases get_foldl_loadRow h with h | ⟨r, hr, hk, hp⟩
    · rcases get_foldl_loadRow6 h with h | ⟨r, hr, hk, hp⟩ | ⟨r, hr, hk, hz, hp, hn⟩
      · rcases get_foldl_loadRow h with h | ⟨r, hr, hk, hp⟩
        · cases h
        · exact hk ▸ @Owns.v4 _ _ true r hr hp
      · exact hk ▸ @Owns.v6 _ _ true r hr hp
      · refine hk ▸ @Owns.dualStack _ _ true r hr hz hp fun r' hr' he => ?_
        rw [hk, ← he] at hn
        exact foldl_loadRow_has hr' hn
    · exact hk ▸ @Owns.v4 _ _ false r hr hp
  · exact hk ▸ @Owns.v6 _ _ false r hr hp
  · refine hk ▸ @Owns.dualStack _ _ false r hr hz hp fun r' hr' he => ?_
    rw [hk, ← he] at hn
    exact foldl_loadRow_has hr' hn

theorem listed_of_owns (h : Owns host.tables pid key) : (portsOf host).get key ≠ none := by
  simp only [portsOf, loadUdp, loadTcp, if_true, Bool.false_eq_true, if_false]
  cases h
  case v4 tcp r hr _ =>
    cases tcp
    case true  =>
      refine foldl_keeps loadRow6_keeps (foldl_keeps loadRow_keeps (foldl_keeps loadRow6_keeps ?_))
      exact foldl_loadRow_has hr
    case false => exact foldl_keeps loadRow6_keeps (foldl_loadRow_has hr)
  case v6 tcp r hr _ =>
    cases tcp
    case true  => exact foldl_keeps loadRow6_keeps (foldl_keeps loadRow_keeps (foldl_loadRow6_has hr))
    case false => exact foldl_loadRow6_has hr
  case dualStack tcp r hr hz _ _ =>
    cases tcp
    case true  => exact foldl_keeps loadRow6_keeps (foldl_keeps loadRow_keeps (foldl_loadRow6_has_alias hr hz))
    case false => exact foldl_loadRow6_has_alias hr hz

-- A load finds the owner of a port that has one only.
theorem listed_of_sole_owner (h : Owns host.tables pid key)
    (hs : ∀ pid', Owns host.tables pid' key → pid' = pid) : (portsOf host).get key = some pid := by
  cases hl : (portsOf host).get key
  case none      => exact absurd hl (listed_of_owns h)
  case some pid' => exact congrArg some (hs pid' (owns_of_listed hl))

end Owns

structure Call where
  host  : Host
  proto : Proto
  isV6  : Bool
  port  : Nat

def Call.key (c : Call) : Key :=
  (c.proto = .tcp, c.isV6, c.port)

-- The application of an image.
def imageApp (fileName : String → Option String) (exe : Option String) : ConnApp where
  exePath := exe
  processName := exe.bind fileName

-- The image path that the resolver goes by.
def ProcessResolver.exeOf (self : ProcessResolver) (host : Host) (pid : UInt32) : Option String :=
  (self.pidExe.get pid).getD (queryExePath host pid)

section Resolve

variable (fileName : String → Option String)

def answer (self : ProcessResolver) (c : Call) : Option ConnApp :=
  (self.resolve c.host fileName c.proto c.isV6 c.port).1

-- Where a resolver finds the process of a port, and that process goes by the image of the owner: in tables
-- that are loaded as they are due, in those it has, or in those it loads because the port is missing.
inductive Attributed (self : ProcessResolver) (c : Call) (owner : UInt32) : Prop
  | due {pid : UInt32} : self.stale c.host = true → (portsOf c.host).get c.key = some pid →
    queryExePath c.host pid = queryExePath c.host owner → Attributed self c owner
  | known {pid : UInt32} : self.stale c.host = false → self.ports.get c.key = some pid →
    self.exeOf c.host pid = queryExePath c.host owner → Attributed self c owner
  | missing {pid : UInt32} : self.stale c.host = false → self.ports.get c.key = none →
    c.key ∉ self.forcedKeys → self.recent c.host = false → (portsOf c.host).get c.key = some pid →
    self.exeOf c.host pid = queryExePath c.host owner → Attributed self c owner

variable {fileName} {self : ProcessResolver} {c : Call} {owner pid : UInt32}

theorem imageApp_inj {exe exe' : Option String} :
    some (imageApp fileName exe) = some (imageApp fileName exe') ↔ exe = exe' := by
  constructor
  case mp  => exact fun h => congrArg ConnApp.exePath (Option.some.inj h)
  case mpr => exact fun h => by rw [h]

theorem exeFor_fst (self : ProcessResolver) (host : Host) (pid : UInt32) :
    (self.exeFor host pid).1 = self.exeOf host pid := by
  rw [ProcessResolver.exeFor, ProcessResolver.exeOf]
  cases self.pidExe.get pid <;> rfl

theorem answer_of_lookup {s : ProcessResolver}
    (h : (self.maybeRefresh c.host).lookup c.host c.key = (some pid, s)) :
    answer fileName self c = some (imageApp fileName (s.exeOf c.host pid)) := by
  rw [Call.key] at h
  rw [answer, ProcessResolver.resolve, h, ← exeFor_fst]
  rfl

theorem answer_due (h : self.stale c.host = true) (hp : (portsOf c.host).get c.key = some pid) :
    answer fileName self c = some (imageApp fileName (queryExePath c.host pid)) := by
  refine answer_of_lookup (s := { self with
    ports := portsOf c.host, pidExe := .empty, forcedKeys := [], last := some c.host.now }) ?_
  rw [ProcessResolver.maybeRefresh, if_pos h, ProcessResolver.lookup]
  have hp' : (ProcessResolver.loadTables c.host { self with pidExe := .empty }).ports.get c.key = some pid := hp
  rw [hp']
  rfl

theorem answer_known (h : self.stale c.host = false) (hp : self.ports.get c.key = some pid) :
    answer fileName self c = some (imageApp fileName (self.exeOf c.host pid)) := by
  refine answer_of_lookup ?_
  rw [ProcessResolver.maybeRefresh, if_neg (Bool.eq_false_iff.mp h), ProcessResolver.lookup, hp]

theorem answer_missing (h : self.stale c.host = false) (hn : self.ports.get c.key = none)
    (hf : c.key ∉ self.forcedKeys) (hr : self.recent c.host = false)
    (hp : (portsOf c.host).get c.key = some pid) :
    answer fileName self c = some (imageApp fileName (self.exeOf c.host pid)) := by
  have hl : (self.maybeRefresh c.host).lookup c.host c.key = (some pid, { self with
      ports := portsOf c.host, forcedKeys := [c.key], last := some c.host.now, lastForced := some c.host.now }) := by
    rw [ProcessResolver.maybeRefresh, if_neg (Bool.eq_false_iff.mp h), ProcessResolver.lookup, hn,
      ProcessResolver.forceRefreshFor, if_neg hf, if_neg (Bool.eq_false_iff.mp hr), ← hp]
    rfl
  have ha : answer fileName self c = some _ := answer_of_lookup hl
  exact ha

theorem answer_none (h : self.stale c.host = false) (hn : self.ports.get c.key = none)
    (hf : c.key ∈ self.forcedKeys ∨ self.recent c.host = true) : answer fileName self c = none := by
  have hl : (self.maybeRefresh c.host).lookup c.host c.key = (none, self) := by
    rw [ProcessResolver.maybeRefresh, if_neg (Bool.eq_false_iff.mp h), ProcessResolver.lookup, hn,
      ProcessResolver.forceRefreshFor]
    rcases hf with hf | hr
    · rw [if_pos hf]
    · by_cases hf : c.key ∈ self.forcedKeys
      case pos => rw [if_pos hf]
      case neg => rw [if_neg hf, if_pos hr]
  rw [Call.key] at hl
  rw [answer, ProcessResolver.resolve, hl]

theorem answer_iff (ho : Owns c.host.tables owner c.key) :
    answer fileName self c = some (imageApp fileName (queryExePath c.host owner)) ↔
      Attributed self c owner := by
  obtain ⟨pid, hp⟩ := Option.ne_none_iff_exists'.mp (listed_of_owns ho)
  cases hs : self.stale c.host
  case true =>
    rw [answer_due hs hp, imageApp_inj]
    constructor
    case mp => exact fun h => .due hs hp h
    case mpr =>
      intro h
      cases h
      case due hp' h      => exact Option.some.inj (hp.symm.trans hp') ▸ h
      case known hs' _ _  => exact absurd (hs.symm.trans hs') Bool.noConfusion
      case missing hs' _ _ _ _ _ => exact absurd (hs.symm.trans hs') Bool.noConfusion
  case false =>
    have hdue : self.stale c.host ≠ true := Bool.eq_false_iff.mp hs
    cases hk : self.ports.get c.key
    case some pid' =>
      rw [answer_known hs hk, imageApp_inj]
      constructor
      case mp => exact fun h => .known hs hk h
      case mpr =>
        intro h
        cases h
        case due hs' _ _           => exact absurd hs' hdue
        case known hk' h           => exact Option.some.inj (hk.symm.trans hk') ▸ h
        case missing hk' _ _ _ _   => exact absurd (hk.symm.trans hk') (Option.some_ne_none _)
    case none =>
      by_cases hf : c.key ∈ self.forcedKeys ∨ self.recent c.host = true
      case pos =>
        rw [answer_none hs hk hf]
        refine iff_of_false (Option.some_ne_none _).symm fun h => ?_
        cases h
        case due hs' _ _              => exact absurd hs' hdue
        case known hk' _              => exact absurd (hk.symm.trans hk') (Option.some_ne_none _).symm
        case missing hf' hr' _ _      =>
          rcases hf with hf | hr
          · exact hf' hf
          · exact absurd (hr.symm.trans hr') Bool.noConfusion
      case neg =>
        have hf' : c.key ∉ self.forcedKeys := fun h => hf (.inl h)
        have hr' : self.recent c.host = false := Bool.eq_false_iff.mpr fun h => hf (.inr h)
        rw [answer_missing hs hk hf' hr' hp, imageApp_inj]
        constructor
        case mp => exact fun h => .missing hs hk hf' hr' hp h
        case mpr =>
          intro h
          cases h
          case due hs' _ _          => exact absurd hs' hdue
          case known hk' _          => exact absurd (hk.symm.trans hk') (Option.some_ne_none _).symm
          case missing hp' h        => exact Option.some.inj (hp.symm.trans hp') ▸ h

end Resolve

-- What a resolver has is what the system has said at some time: its ports at the time of the last load,
-- its image paths at some time or other.
structure Explained (hosts : List Host) (r : ProcessResolver) : Prop where
  ports  : r.last = none ∧ r.ports = .empty ∨ ∃ h ∈ hosts, r.last = some h.now ∧ r.ports = portsOf h
  pidExe : ∀ pid exe, r.pidExe.get pid = some exe → ∃ h ∈ hosts, exe = queryExePath h pid

section Explained

variable {hosts hosts' : List Host} {host : Host} {self : ProcessResolver}

theorem Explained.mono (h : Explained hosts self) (hs : hosts ⊆ hosts') : Explained hosts' self where
  ports := h.ports.imp_right fun ⟨h', hm, hp⟩ => ⟨h', hs hm, hp⟩
  pidExe := by
    intro pid exe he
    obtain ⟨h', hm, hq⟩ := h.pidExe pid exe he
    exact ⟨h', hs hm, hq⟩

theorem Explained.maybeRefresh (h : Explained hosts self) (hm : host ∈ hosts) :
    Explained hosts (self.maybeRefresh host) := by
  rw [ProcessResolver.maybeRefresh]
  split
  case isTrue  => exact ⟨.inr ⟨host, hm, rfl, rfl⟩, fun _ _ he => by cases he⟩
  case isFalse => exact h

theorem Explained.lookup (h : Explained hosts self) (hm : host ∈ hosts) (key : Key) :
    Explained hosts (self.lookup host key).2 := by
  rw [ProcessResolver.lookup]
  cases self.ports.get key
  case some pid => exact h
  case none =>
    rw [ProcessResolver.forceRefreshFor]
    by_cases hf : key ∈ self.forcedKeys
    case pos =>
      rw [if_pos hf]
      exact h
    case neg =>
      rw [if_neg hf]
      by_cases hr : self.recent host = true
      case pos =>
        rw [if_pos hr]
        exact h
      case neg =>
        rw [if_neg hr]
        exact ⟨.inr ⟨host, hm, rfl, rfl⟩, h.pidExe⟩

theorem Explained.exeFor (h : Explained hosts self) (hm : host ∈ hosts) (pid : UInt32) :
    Explained hosts (self.exeFor host pid).2 := by
  rw [ProcessResolver.exeFor]
  cases hp : self.pidExe.get pid
  case some exe => exact h
  case none =>
    refine ⟨h.ports, fun pid' exe he => ?_⟩
    simp only [PartialMap.get_insert] at he
    split at he
    case isTrue hk  => exact ⟨host, hm, hk ▸ (Option.some.inj he).symm⟩
    case isFalse hk => exact h.pidExe pid' exe he

theorem Explained.resolve (h : Explained hosts self) (hm : host ∈ hosts) (fileName : String → Option String)
    (proto : Proto) (isV6 : Bool) (localPort : Nat) :
    Explained hosts (self.resolve host fileName proto isV6 localPort).2 := by
  have hl := (h.maybeRefresh hm).lookup hm (proto = .tcp, isV6, localPort)
  rw [ProcessResolver.resolve]
  generalize (self.maybeRefresh host).lookup host (proto = .tcp, isV6, localPort) = r at hl ⊢
  obtain ⟨_ | pid, s⟩ := r
  case none => exact hl
  case some => exact hl.exeFor hm pid

end Explained

section Session

-- Calls come one after the other.
structure Session where
  resolver : ProcessResolver := {}
  now      : Nat := 0

variable (fileName : String → Option String)

def Session.step (s : Session) (c : Call) : Option Session :=
  if s.now ≤ c.host.now then
    some {
      resolver := (s.resolver.resolve c.host fileName c.proto c.isV6 c.port).2
      now := c.host.now
    }
  else none

-- Whoever owns the port, the answer is its application.
def Right (s : Session) (c : Call) : Prop :=
  ∀ owner, Owns c.host.tables owner c.key →
    answer fileName s.resolver c = some (imageApp fileName (queryExePath c.host owner))

variable {fileName} {calls : List Call} {s s' : Session} {hosts : List Host}

theorem explained_run (h : Explained hosts s.resolver) (hr : Machine.run (Session.step fileName) s calls = some s') :
    Explained (hosts ++ calls.map Call.host) s'.resolver := by
  induction calls generalizing s hosts
  case nil => exact Option.some.inj hr ▸ h.mono (List.subset_append_left _ _)
  case cons c calls hi =>
    obtain ⟨s₁, hs, hr⟩ := Machine.run_cons hr
    rw [Session.step] at hs
    split at hs <;> cases hs
    have he : Explained (hosts ++ [c.host]) s.resolver := h.mono (List.subset_append_left _ _)
    have hm : c.host ∈ hosts ++ [c.host] := List.mem_append_right _ List.mem_cons_self
    have := hi (he.resolve hm fileName c.proto c.isV6 c.port) hr
    rwa [List.append_assoc] at this

end Session

-- A moment of a system with two applications, in milliseconds.
def hostAt (ms : Nat) (tcp : List Row) : Host where
  now := millis ms
  tables := { tcp }
  imageName := fun pid => if pid = 7 then some "C:\\a.exe" else some "C:\\b.exe"

def tcpCall (ms : Nat) (tcp : List Row) (port : Nat) : Call :=
  ⟨hostAt ms tcp, .tcp, false, port⟩

theorem owns_of_single {r : Row} {pid : UInt32} {key : Key} (h : Owns { tcp := [r] } pid key) :
    r.owningPid = pid := by
  cases h
  case v4 tcp r' hr hp =>
    cases tcp
    case true  => exact List.mem_singleton.mp hr ▸ hp
    case false => exact absurd hr List.not_mem_nil
  case v6 tcp r' hr _            => cases tcp <;> exact absurd hr List.not_mem_nil
  case dualStack tcp r' hr _ _ _ => cases tcp <;> exact absurd hr List.not_mem_nil

-- The ports 1000, 2000 and 3000 are 3e8, 7d0 and bb8 in hexadecimal. A number that another process has got since the
-- last refresh stands for the image of the old one, in tables that have just been loaded, as long as every new port
-- forces a load within a second; of two ports that are new at once the second one is not found; and a port that
-- changes hands keeps its old owner.
theorem answers_wrong :
    (¬∀ (fileName : String → Option String) (calls : List Call) (s : Session) (c : Call) (owner : UInt32)
      (app : ConnApp), Machine.run (Session.step fileName) {} calls = some s → s.now ≤ c.host.now →
      (s.resolver.resolve c.host fileName c.proto c.isV6 c.port).2.ports = portsOf c.host →
      (∀ pid, Owns c.host.tables pid c.key ↔ pid = owner) → answer fileName s.resolver c = some app →
      app = imageApp fileName (queryExePath c.host owner)) ∧
    (¬∀ (fileName : String → Option String) (calls : List Call) (s : Session) (c : Call) (owner : UInt32),
      Machine.run (Session.step fileName) {} calls = some s → s.now ≤ c.host.now →
      Owns c.host.tables owner c.key → answer fileName s.resolver c ≠ none) ∧
    ¬∀ (fileName : String → Option String) (calls : List Call) (s : Session) (c : Call) (owner : UInt32)
      (app : ConnApp), Machine.run (Session.step fileName) {} calls = some s → s.now ≤ c.host.now →
      (∀ pid, Owns c.host.tables pid c.key ↔ pid = owner) → answer fileName s.resolver c = some app →
      app = imageApp fileName (queryExePath c.host owner) := by
  have sole (ms : Nat) (dw pid : UInt32) (images : UInt32 → Option String) (pid' : UInt32) :
      Owns ({ hostAt ms [⟨dw, pid⟩] with imageName := images } : Host).tables pid' (true, false, swapPort dw) ↔
        pid' = pid := by
    constructor
    case mp => exact fun h => (owns_of_single h).symm
    case mpr =>
      rintro rfl
      exact @Owns.v4 _ _ true ⟨dw, pid'⟩ (List.mem_singleton.mpr rfl) rfl
  refine ⟨fun h => ?_, fun h => ?_, fun h => ?_⟩
  case refine_1 =>
    have ha := h (fun p => some (AppMatcher.fileName p))
      [tcpCall 0 [⟨0xe803, 7⟩] 1000, tcpCall 900 [⟨0xe803, 7⟩, ⟨0xd007, 7⟩] 2000] _
      ⟨{ hostAt 1800 [⟨0xb80b, 7⟩] with imageName := fun _ => some "C:\\b.exe" }, .tcp, false, 3000⟩ 7
      { exePath := some "C:\\a.exe", processName := some "a.exe" } rfl (by decide) rfl
      (sole 1800 0xb80b 7 _) (by decide +kernel)
    exact absurd (congrArg ConnApp.exePath ha) (by decide)
  case refine_2 =>
    have ho : Owns (hostAt 10 [⟨0xe803, 7⟩, ⟨0xd007, 7⟩, ⟨0xb80b, 7⟩]).tables 7 (true, false, swapPort 0xb80b) :=
      @Owns.v4 _ _ true ⟨0xb80b, 7⟩ (by decide) rfl
    exact h (fun p => some (AppMatcher.fileName p))
      [tcpCall 0 [⟨0xe803, 7⟩] 1000, tcpCall 5 [⟨0xe803, 7⟩, ⟨0xd007, 7⟩] 2000] _
      (tcpCall 10 [⟨0xe803, 7⟩, ⟨0xd007, 7⟩, ⟨0xb80b, 7⟩] 3000) 7 rfl (by decide) ho (by decide +kernel)
  case refine_3 =>
    have ha := h (fun p => some (AppMatcher.fileName p)) [tcpCall 0 [⟨0xe803, 7⟩] 1000] _
      (tcpCall 500 [⟨0xe803, 8⟩] 1000) 8 { exePath := some "C:\\a.exe", processName := some "a.exe" } rfl
      (by decide) (sole 500 0xe803 8 _) (by decide +kernel)
    exact absurd (congrArg ConnApp.exePath ha) (by decide)

theorem answers_right_iff (fileName : String → Option String) (calls : List Call) :
    (∀ s, Machine.run (Session.step fileName) {} calls = some s →
      Explained (calls.map Call.host) s.resolver) ∧
    (∀ host owner key, Owns host.tables owner key → (∀ pid, Owns host.tables pid key → pid = owner) →
      (portsOf host).get key = some owner) ∧
    (Machine.Each (Session.step fileName) (Right fileName) {} calls ↔
      Machine.Each (Session.step fileName)
        (fun s c => ∀ owner, Owns c.host.tables owner c.key → Attributed s.resolver c owner) {} calls) := by
  refine ⟨?explained, fun _ _ _ ho hs => listed_of_sole_owner ho hs, ?right⟩
  case explained =>
    have h : Explained [] ({} : Session).resolver := ⟨.inl ⟨rfl, rfl⟩, fun _ _ he => by cases he⟩
    exact fun s hr => explained_run h hr
  case right =>
    refine Machine.each_congr fun s c => ?_
    exact forall₂_congr fun owner ho => answer_iff ho

end JammVpn.Attribution
