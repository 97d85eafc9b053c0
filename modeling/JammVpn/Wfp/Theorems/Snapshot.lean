import JammVpn.Wfp.Classify
import JammVpn.Wfp.Theorems.Decide

namespace JammVpn.Wfp

open Machine

variable {rtl : Rtl} {s s' : Driver} {c c' : Call} {gConfig : JammConfig}

-- The rules send this connection to that port of that process.
structure Redirects (rtl : Rtl) (args : ClassifyArgs) (cfg : JammConfig) (r : ConnectRequest) : Prop where
  decision : jammDecide cfg (appLower rtl args) args.remoteIp = .tunnel
  port     : cfg.redirectPort = r.remotePort
  pid      : cfg.redirectPid = r.localRedirectTargetPID

def Phase.request : Phase → Option ConnectRequest
  | .done _ r => r
  | _         => none

-- Every connect request comes from rules that were in force during the call.
def FromOne (rtl : Rtl) (s : Driver) : Prop :=
  ∀ c ∈ s.calls, ∀ r, c.phase.request = some r → ∃ cfg ∈ c.seen, Redirects rtl c.args cfg r

-- It comes from those that the connection was decided on.
def FromDecided (rtl : Rtl) (s : Driver) : Prop :=
  ∀ c ∈ s.calls, ∀ r, c.phase.request = some r → ∃ cfg, c.decidedOn = some cfg ∧ Redirects rtl c.args cfg r

-- When the process is written, the rules in force name the one that was read under the lock.
def PidKept (s : Driver) : Event → Prop
  | .classify i _ _ =>
    ∀ c ∈ s.calls[i]?, ∀ snap, c.phase = .readdressed snap → s.gConfig.redirectPid = snap.redirectPid
  | _ => True

-- What was copied is what the rules said that the connection was decided on.
structure Call.Decided (rtl : Rtl) (c : Call) (snap : Snapshot) (cfg : JammConfig) : Prop where
  on   : c.decidedOn = some cfg
  seen : cfg ∈ c.seen
  snap : snap = jammSnapshot rtl c.args cfg

def Call.Inv (rtl : Rtl) (gConfig : JammConfig) (c : Call) : Prop :=
  match c.phase with
  | .entered          => gConfig ∈ c.seen
  | .decided snap     => ∃ cfg, c.Decided rtl snap cfg
  | .readdressed snap => (∃ cfg, c.Decided rtl snap cfg) ∧ snap.decision = .tunnel
  | .done _ none      => True
  | .done _ (some r)  => ∃ cfg, c.decidedOn = some cfg ∧ cfg ∈ c.seen ∧ Redirects rtl c.args cfg r

def Driver.Inv (rtl : Rtl) (s : Driver) : Prop :=
  ∀ c ∈ s.calls, c.Inv rtl s.gConfig

theorem Call.Inv.of_request {r : ConnectRequest} (h : c.Inv rtl gConfig) (hr : c.phase.request = some r) :
    ∃ cfg, c.decidedOn = some cfg ∧ cfg ∈ c.seen ∧ Redirects rtl c.args cfg r := by
  obtain ⟨args, phase, seen, on⟩ := c
  cases phase
  case done out req =>
    simp only [Phase.request] at hr
    subst hr
    exact h
  all_goals cases hr

theorem Call.Decided.sees {snap : Snapshot} {cfg : JammConfig} (h : c.Decided rtl snap cfg)
    (gConfig : JammConfig) : (c.sees gConfig).Decided rtl snap cfg := by
  obtain ⟨hon, hseen, hsnap⟩ := h
  rw [Call.sees]
  split
  case isTrue  => exact ⟨hon, hseen, hsnap⟩
  case isFalse => exact ⟨hon, List.mem_cons_of_mem _ hseen, hsnap⟩

theorem Call.Inv.sees (h : c.Inv rtl gConfig) (new : JammConfig) : (c.sees new).Inv rtl new := by
  obtain ⟨args, phase, seen, on⟩ := c
  cases phase
  case entered => exact List.mem_cons_self
  case decided snap =>
    have ⟨cfg, hd⟩ := h
    exact ⟨cfg, hd.sees new⟩
  case readdressed snap =>
    have ⟨⟨cfg, hd⟩, ht⟩ := h
    exact ⟨⟨cfg, hd.sees new⟩, ht⟩
  case done out req =>
    cases req
    case none   => trivial
    case some r => exact h

-- What a step after the lock can lead to.
theorem jammRedirect_cases (args : ClassifyArgs) (snap : Snapshot) (handle writable : Bool) :
    (∃ out, jammRedirect args snap handle writable = .done out none) ∨
    jammRedirect args snap handle writable = .readdressed snap ∧ snap.decision = .tunnel := by
  simp only [jammRedirect]
  split
  case isTrue => exact .inl ⟨_, rfl⟩
  case isFalse hb =>
    split
    case isTrue => exact .inl ⟨_, rfl⟩
    case isFalse hd =>
      split
      case isTrue =>
        split
        case isTrue  => exact .inl ⟨_, rfl⟩
        case isFalse => exact .inl ⟨_, rfl⟩
      case isFalse =>
        refine .inr ⟨rfl, ?_⟩
        cases h : snap.decision
        case tunnel => rfl
        case direct => exact absurd (.inl h) hd
        case block  => exact absurd h hb

-- The three steps of a call.
theorem Call.step_cases {handle writable : Bool} (h : c.step rtl gConfig handle writable = some c') :
    (c.phase = .entered ∧ c' = { c with
      phase := .decided (jammSnapshot rtl c.args gConfig), decidedOn := some gConfig }) ∨
    (∃ snap, c.phase = .decided snap ∧ c' = { c with phase := jammRedirect c.args snap handle writable }) ∨
    ∃ snap, c.phase = .readdressed snap ∧ c' = { c with phase := jammComplete c.args snap gConfig } := by
  rw [Call.step] at h
  split at h
  case h_1 hp      => exact .inl ⟨hp, (Option.some.inj h).symm⟩
  case h_2 snap hp => exact .inr (.inl ⟨snap, hp, (Option.some.inj h).symm⟩)
  case h_3 snap hp => exact .inr (.inr ⟨snap, hp, (Option.some.inj h).symm⟩)
  case h_4         => cases h

theorem Call.Inv.step {handle writable : Bool} (hi : c.Inv rtl gConfig)
    (hk : ∀ snap, c.phase = .readdressed snap → gConfig.redirectPid = snap.redirectPid)
    (h : c.step rtl gConfig handle writable = some c') : c'.Inv rtl gConfig := by
  obtain ⟨args, phase, seen, on⟩ := c
  obtain ⟨hp, rfl⟩ | ⟨snap, hp, rfl⟩ | ⟨snap, hp, rfl⟩ := Call.step_cases h
  all_goals
    dsimp only at hp hk
    subst hp
  case inl => exact ⟨gConfig, rfl, hi, rfl⟩
  case inr.inl =>
    have ⟨cfg, hd⟩ := hi
    obtain ⟨out, hr⟩ | ⟨hr, ht⟩ := jammRedirect_cases args snap handle writable
    case inl =>
      simp only [Call.Inv, hr]
    case inr =>
      simp only [Call.Inv, hr]
      exact ⟨⟨cfg, hd.on, hd.seen, hd.snap⟩, ht⟩
  case inr.inr =>
    have ⟨⟨cfg, hd⟩, ht⟩ := hi
    have hs := hd.snap
    refine ⟨cfg, hd.on, hd.seen, ?decision, ?port, ?pid⟩
    case decision => rw [← ht, hs]; rfl
    case port     => rw [hs]; rfl
    case pid      => rw [hk snap rfl, hs]; rfl

theorem inv_enter (rtl : Rtl) (args : ClassifyArgs) (gConfig : JammConfig) :
    Call.Inv rtl gConfig { args, phase := jammEnter args, seen := [gConfig] } := by
  have h : jammEnter args = .entered ∨ ∃ out, jammEnter args = .done out none := by
    rw [jammEnter]
    split
    case isTrue => exact .inr ⟨_, rfl⟩
    case isFalse =>
      split
      case isTrue  => exact .inr ⟨_, rfl⟩
      case isFalse => exact .inl rfl
  obtain h | ⟨out, h⟩ := h <;> simp [Call.Inv, h]

-- A step of a driver enters a call, takes a step of one, or replaces the rules.
theorem Driver.step_cases {e : Event} (h : s.step rtl e = some s') :
    (∃ args, e = .enter args ∧ s' = { s with
      calls := s.calls ++ [{ args, phase := jammEnter args, seen := [s.gConfig] }] }) ∨
    (∃ i handle writable c c', e = .classify i handle writable ∧ s.calls[i]? = some c ∧
      c.step rtl s.gConfig handle writable = some c' ∧ s' = { s with calls := s.calls.set i c' }) ∨
    ∃ request, e = .ioctl request ∧ s' = {
      gConfig := (jammDeviceControl rtl s.gConfig request).2
      calls := s.calls.map (·.sees (jammDeviceControl rtl s.gConfig request).2) } := by
  cases e
  case enter args    => exact .inl ⟨args, rfl, (Option.some.inj h).symm⟩
  case ioctl request => exact .inr (.inr ⟨request, rfl, (Option.some.inj h).symm⟩)
  case classify i handle writable =>
    simp only [Driver.step, Option.bind_eq_bind, Option.bind_eq_some_iff] at h
    obtain ⟨c, hc, c', hs, h⟩ := h
    exact .inr (.inl ⟨i, handle, writable, c, c', rfl, hc, hs, (Option.some.inj h).symm⟩)

theorem keeps_inv : Keeps (Driver.step rtl) PidKept (Driver.Inv rtl) := by
  intro s e s' hi hk h
  obtain ⟨args, rfl, rfl⟩ | ⟨i, handle, writable, c, c', rfl, hc, hs, rfl⟩ | ⟨request, rfl, rfl⟩ :=
    Driver.step_cases h
  case inl =>
    intro c hc
    obtain hc | hc := List.mem_append.mp hc
    case inl => exact hi c hc
    case inr => exact List.mem_singleton.mp hc ▸ inv_enter rtl args s.gConfig
  case inr.inl =>
    intro d hd
    obtain hd | rfl := List.mem_or_eq_of_mem_set hd
    case inl => exact hi d hd
    case inr => exact (hi c (List.mem_of_getElem? hc)).step (hk c hc) hs
  case inr.inr =>
    intro d hd
    obtain ⟨c, hc, rfl⟩ := List.mem_map.mp hd
    exact (hi c hc).sees _

theorem Driver.Inv.fromDecided (h : s.Inv rtl) : FromDecided rtl s := by
  intro c hc r hr
  have ⟨cfg, hon, _, hcfg⟩ := (h c hc).of_request hr
  exact ⟨cfg, hon, hcfg⟩

theorem Driver.Inv.fromOne (h : s.Inv rtl) : FromOne rtl s := by
  intro c hc r hr
  have ⟨cfg, _, hseen, hcfg⟩ := (h c hc).of_request hr
  exact ⟨cfg, hseen, hcfg⟩

-- A process that is not the one read under the lock is written into the request.
theorem not_fromDecided_of_step {e : Event} (hi : s.Inv rtl) (hk : ¬PidKept s e) (h : s.step rtl e = some s') :
    ¬FromDecided rtl s' := by
  obtain ⟨args, rfl, rfl⟩ | ⟨i, handle, writable, c, c', rfl, hc, hs, rfl⟩ | ⟨request, rfl, rfl⟩ :=
    Driver.step_cases h
  case inl     => exact absurd trivial hk
  case inr.inr => exact absurd trivial hk
  case inr.inl =>
    intro hf
    refine hk fun d hd snap hp => ?_
    rw [hc] at hd
    cases hd
    have hmem : c' ∈ s.calls.set i c' :=
      List.mem_set (List.getElem?_eq_some_iff.mp hc).1 c'
    have hinv := hi c (List.mem_of_getElem? hc)
    rw [Call.Inv, hp] at hinv
    have ⟨⟨cfg, hd⟩, _⟩ := hinv
    obtain ⟨hp', rfl⟩ | ⟨_, hp', rfl⟩ | ⟨_, hp', rfl⟩ := Call.step_cases hs
    all_goals
      rw [hp] at hp'
      cases hp'
    have ⟨cfg', hon, hr⟩ := hf _ hmem _ rfl
    have hcfg : some cfg = some cfg' := hd.on ▸ hon
    cases hcfg
    rw [hd.snap]
    exact hr.pid.symm

-- All traffic goes to port 8080 of process 1234.
def proxied : DriverConfig where
  mode := .exclusive
  killSwitch := false
  redirectPort := 8080
  redirectPid := 1234
  apps := []
  bypassCidrs := []
  forceDirect := []
  forceTunnel := []
  endpoints := []

-- The rules are taken back between the port and the process of a connect request.
def clearedMeanwhile : List Event :=
  [
    .ioctl (.setConfig (encodeConfig proxied)),
    .enter {
      out := { actionWrite := true }
      redirectState := none
      appId := []
      remote := .v4 0x08080808
      remotePort := 443
      processId := none
    },
    .classify 0 true true,
    .classify 0 true true,
    .ioctl .clear,
    .classify 0 true true
  ]

theorem request_of_two_configurations :
    ¬∀ (rtl : Rtl) (es : List Event), Always (Driver.step rtl) (FromOne rtl) {} es := by
  intro h
  have hb : ((run (Driver.step .ascii) {} clearedMeanwhile).any fun s => s.calls.any fun c =>
      c.phase.request.any fun r => c.seen.all fun cfg =>
        cfg.redirectPort != r.remotePort || cfg.redirectPid != r.localRedirectTargetPID) = true := by
    decide +kernel
  obtain ⟨s, hs, hb⟩ := (Option.any_eq_true _ _).mp hb
  obtain ⟨c, hc, hb⟩ := List.any_eq_true.mp hb
  obtain ⟨r, hr, hb⟩ := (Option.any_eq_true _ _).mp hb
  have ⟨cfg, hcfg, hred⟩ := (h .ascii clearedMeanwhile).of_run hs c hc r hr
  have hne := List.all_eq_true.mp hb cfg hcfg
  simp [hred.port, hred.pid] at hne

theorem one_configuration (rtl : Rtl) (gConfig : JammConfig) (es : List Event) :
    (Each (Driver.step rtl) PidKept { gConfig } es → Always (Driver.step rtl) (FromOne rtl) { gConfig } es) ∧
    (Always (Driver.step rtl) (FromDecided rtl) { gConfig } es ↔ Each (Driver.step rtl) PidKept { gConfig } es) := by
  have hi : Driver.Inv rtl { gConfig } := fun c hc => absurd hc List.not_mem_nil
  constructor
  case left =>
    intro h
    exact (h.always keeps_inv hi).mono fun s hs => hs.fromOne
  case right =>
    exact always_iff_each keeps_inv (fun s hs => hs.fromDecided)
      (fun s e s' hp hk h => not_fromDecided_of_step hp hk h) hi

end JammVpn.Wfp
