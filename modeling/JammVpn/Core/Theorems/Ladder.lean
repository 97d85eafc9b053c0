import JammVpn.Core.Split
import JammVpn.Lib.Ladder

namespace JammVpn.Split

open Ip Ladder Text

-- An address is in a subnet if it is of the same family and begins with the same bits.
inductive InSubnet (c : IpCidr) : IpAddr → Prop
  | v4 {base addr : BitVec 32} : c.base = .v4 base →
    addr.toNat / 2 ^ (32 - c.prefixLen) = base.toNat / 2 ^ (32 - c.prefixLen) → InSubnet c (.v4 addr)
  | v6 {base addr : BitVec 128} : c.base = .v6 base →
    addr.toNat / 2 ^ (128 - c.prefixLen) = base.toNat / 2 ^ (128 - c.prefixLen) → InSubnet c (.v6 addr)

theorem contains_iff_inSubnet (c : IpCidr) (ip : IpAddr) : c.contains ip = true ↔ InSubnet c ip := by
  obtain ⟨base, len, hl⟩ := c
  cases base <;> cases ip
  case v4.v4 base addr =>
    show IpCidr.v4Match base addr len = true ↔ _
    rw [IpCidr.v4Match, beq_iff_eq, IpCidr.and_mask_eq_iff]
    constructor
    case mp => exact fun h => @InSubnet.v4 _ base addr rfl h.symm
    case mpr =>
      intro h
      cases h
      case v4 b hb h =>
        cases hb
        exact h.symm
  case v6.v6 base addr =>
    show IpCidr.v6Match base addr len = true ↔ _
    rw [IpCidr.v6Match, beq_iff_eq, IpCidr.and_mask_eq_iff]
    constructor
    case mp => exact fun h => @InSubnet.v6 _ base addr rfl h.symm
    case mpr =>
      intro h
      cases h
      case v6 b hb h =>
        cases hb
        exact h.symm
  case v4.v6 base addr =>
    refine iff_of_false Bool.false_ne_true fun h => ?_
    cases h
    contradiction
  case v6.v4 base addr =>
    refine iff_of_false Bool.false_ne_true fun h => ?_
    cases h
    contradiction

-- The addresses of all subnets in a list, as far as they can be parsed.
def networks (list : List String) : Set IpAddr :=
  {ip | ∃ s ∈ list, ∃ c, IpCidr.parse s = .ok c ∧ InSubnet c ip}

theorem cidrsContain_iff (list : List String) (ip : IpAddr) :
    cidrsContain list ip = true ↔ ip ∈ networks list := by
  simp only [cidrsContain, List.any_eq_true, List.mem_filterMap, networks, Set.mem_ofPred_eq,
    contains_iff_inSubnet]
  constructor
  case mp =>
    rintro ⟨c, ⟨s, hs, hc⟩, hip⟩
    refine ⟨s, hs, c, ?_, hip⟩
    cases hp : IpCidr.parse s
    case error e =>
      rw [hp] at hc
      cases hc
    case ok c' =>
      rw [hp] at hc
      exact congrArg _ (Option.some.inj hc)
  case mpr =>
    rintro ⟨s, hs, c, hc, hip⟩
    exact ⟨c, ⟨s, hs, by rw [hc]; rfl⟩, hip⟩

def endpoints (cfg : SplitConfig) : Set IpAddr :=
  {ip | ∃ e ∈ cfg.serverEndpoints, endpointIp e = some ip}

theorem hairpin_iff (cfg : SplitConfig) (ip : IpAddr) :
    (cfg.serverEndpoints.any fun e => endpointIp e == some ip) = true ↔ ip ∈ endpoints cfg := by
  simp only [List.any_eq_true, beq_iff_eq, endpoints, Set.mem_ofPred_eq]

-- How a matcher finds its application, by the path or by the name.
inductive Finds (app : ConnApp) : AppMatcher → Prop
  | exePath {e p : String} : app.exePath = some e → asciiLower e = asciiLower p → Finds app (.exePath p)
  | processName {x n : String} : AppMatcher.effectiveName app = some x → asciiLower x = asciiLower n →
    Finds app (.processName n)

theorem matchesApp_iff (m : AppMatcher) (app : ConnApp) : m.matchesApp app = true ↔ Finds app m := by
  cases m
  case exePath p =>
    rw [AppMatcher.matchesApp, Option.any_eq_true]
    constructor
    case mp =>
      rintro ⟨e, he, h⟩
      exact .exePath he (beq_iff_eq.mp h)
    case mpr =>
      intro h
      cases h
      case exePath e he h => exact ⟨e, he, beq_iff_eq.mpr h⟩
  case processName n =>
    rw [AppMatcher.matchesApp, Option.any_eq_true]
    constructor
    case mp =>
      rintro ⟨x, hx, h⟩
      exact .processName hx (beq_iff_eq.mp h)
    case mpr =>
      intro h
      cases h
      case processName x hx h => exact ⟨x, hx, beq_iff_eq.mpr h⟩

def selected (cfg : SplitConfig) : Set ConnApp :=
  {app | ∃ m ∈ cfg.apps, Finds app m}

theorem appSelected_iff (cfg : SplitConfig) (app : ConnApp) :
    appSelected cfg app = true ↔ app ∈ selected cfg := by
  simp only [appSelected, List.any_eq_true, matchesApp_iff, selected, Set.mem_ofPred_eq]

def Route.other : Route → Route
  | .direct => .tunnel
  | .tunnel => .direct

-- What becomes of the connections of the selected applications.
def ofSelected : SplitMode → Route
  | .inclusive => .tunnel
  | .exclusive => .direct

def directRungs (cfg : SplitConfig) : List (Rung ConnRequest Route) :=
  [
    ⟨{req | req.dstIp ∈ endpoints cfg}, .direct⟩,
    ⟨{req | req.dstIp ∈ networks alwaysBypassCidrs}, .direct⟩,
    ⟨{req | req.dstIp ∈ networks cfg.forceDirectCidrs}, .direct⟩
  ]

def addressRungs (cfg : SplitConfig) : List (Rung ConnRequest Route) :=
  directRungs cfg ++ [⟨{req | req.dstIp ∈ networks cfg.forceTunnelCidrs}, .tunnel⟩]

def modeRungs (cfg : SplitConfig) : List (Rung ConnRequest Route) :=
  [
    ⟨{req | req.app ∈ selected cfg}, ofSelected cfg.mode⟩,
    ⟨.univ, (ofSelected cfg.mode).other⟩
  ]

def ladder (cfg : SplitConfig) : List (Rung ConnRequest Route) :=
  addressRungs cfg ++ modeRungs cfg

-- The last rung only sees what is meant for the tunnel.
def killSwitched (killSwitch tunnelUp : Bool) : Route → Action
  | .direct => .direct
  | .tunnel => if tunnelUp then .tunnel else if killSwitch then .block else .direct

section

variable {cfg : SplitConfig} {req : ConnRequest} {r : Route}

-- The last rung of the ladder takes every request.
theorem exists_decides_ladder (cfg : SplitConfig) (req : ConnRequest) : ∃ r, Decides (ladder cfg) req r :=
  exists_decides fun h => h ⟨.univ, (ofSelected cfg.mode).other⟩ (by simp [ladder, modeRungs]) trivial

theorem decides_modeRungs_iff :
    Decides (modeRungs cfg) req r ↔
      r = if appSelected cfg req.app then ofSelected cfg.mode else (ofSelected cfg.mode).other := by
  simp only [modeRungs, decides_cons, Set.mem_ofPred_eq, ← appSelected_iff, Set.mem_univ, true_and,
    not_true_eq_false, false_and, or_false]
  by_cases hs : appSelected cfg req.app = true
  case pos => simp [hs, eq_comm]
  case neg => simp [hs, eq_comm]

theorem decide_of_decides (h : Decides (ladder cfg) req r) (tunnelUp : Bool) :
    decide req cfg tunnelUp = killSwitched cfg.killSwitch tunnelUp r := by
  simp only [ladder, addressRungs, directRungs, List.cons_append, List.nil_append, decides_cons, Set.mem_ofPred_eq,
    ← hairpin_iff, ← cidrsContain_iff, decides_modeRungs_iff] at h
  rcases h with ⟨h₁, rfl⟩ | ⟨h₁, ⟨h₂, rfl⟩ | ⟨h₂, ⟨h₃, rfl⟩ | ⟨h₃, ⟨h₄, rfl⟩ | ⟨h₄, rfl⟩⟩⟩⟩
  · rw [decide, if_pos h₁]
    rfl
  · rw [decide, if_neg h₁, if_pos h₂]
    rfl
  · rw [decide, if_neg h₁, if_neg h₂, if_pos h₃]
    rfl
  · simp only [decide, if_neg h₁, if_neg h₂, if_neg h₃, if_pos h₄]
    rfl
  · simp only [decide, if_neg h₁, if_neg h₂, if_neg h₃, if_neg h₄]
    cases cfg.mode <;> cases appSelected cfg req.app <;> rfl

theorem undecided_directRungs_iff :
    Undecided (directRungs cfg) req ↔
      ¬(req.dstIp ∈ endpoints cfg ∨ req.dstIp ∈ networks alwaysBypassCidrs ∨
        req.dstIp ∈ networks cfg.forceDirectCidrs) := by
  simp [Undecided, directRungs]

theorem decides_direct (h : ¬Undecided (directRungs cfg) req) : Decides (ladder cfg) req .direct := by
  have hd : Decides (directRungs cfg) req .direct :=
    decides_of_uniform (by simp [directRungs]) h
  exact decides_append.mpr (.inl (decides_append.mpr (.inl hd)))

theorem decide_block_iff (h : cfg.killSwitch = true) :
    decide req cfg false = .block ↔ decide req cfg true = .tunnel := by
  obtain ⟨r, hr⟩ := exists_decides_ladder cfg req
  rw [decide_of_decides hr, decide_of_decides hr, h]
  cases r
  case direct => exact iff_of_false Action.noConfusion Action.noConfusion
  case tunnel => exact iff_of_true rfl rfl

-- The rungs for addresses do not know the mode.
theorem decides_exclusive (h : Decides (ladder { cfg with mode := .inclusive }) req r) :
    ¬Undecided (addressRungs cfg) req ∧ Decides (ladder { cfg with mode := .exclusive }) req r ∨
    Undecided (addressRungs cfg) req ∧ Decides (ladder { cfg with mode := .exclusive }) req r.other := by
  rcases decides_append.mp h with h | ⟨hu, h⟩
  case inl =>
    have h : Decides (addressRungs cfg) req r := h
    exact .inl ⟨h.not_undecided, decides_append.mpr (.inl h)⟩
  case inr =>
    refine .inr ⟨hu, decides_append.mpr (.inr ⟨hu, decides_modeRungs_iff.mpr ?_⟩)⟩
    rw [decides_modeRungs_iff.mp h]
    by_cases hs : appSelected cfg req.app = true
    case pos =>
      have hs' : ∀ mode, appSelected { cfg with mode } req.app = true := fun _ => hs
      rw [if_pos (hs' _), if_pos (hs' _)]
      rfl
    case neg =>
      have hs' : ∀ mode, ¬appSelected { cfg with mode } req.app = true := fun _ => hs
      rw [if_neg (hs' _), if_neg (hs' _)]
      rfl

end

-- A list of subnets with more texts in it that are no subnets.
inductive Padded : List String → List String → Prop
  | nil : Padded [] []
  | cons {s : String} {list list' : List String} : Padded list list' → Padded (s :: list) (s :: list')
  | junk {s : String} {list list' : List String} :
    (∀ c, IpCidr.parse s ≠ .ok c) → Padded list list' → Padded list (s :: list')

theorem networks_cons (s : String) (list : List String) :
    networks (s :: list) = {ip | ∃ c, IpCidr.parse s = .ok c ∧ InSubnet c ip} ∪ networks list := by
  ext ip
  simp only [networks, Set.mem_ofPred_eq, Set.mem_union, List.exists_mem_cons_iff]

theorem Padded.networks {list list' : List String} (h : Padded list list') :
    networks list' = networks list := by
  induction h
  case nil       => rfl
  case cons _ hi => rw [networks_cons, networks_cons, hi]
  case junk s list list' hj _ hi =>
    have he : {ip | ∃ c, IpCidr.parse s = .ok c ∧ InSubnet c ip} = (∅ : Set IpAddr) := by
      refine Set.eq_empty_iff_forall_notMem.mpr fun ip hip => ?_
      obtain ⟨c, hc, _⟩ := hip
      exact hj c hc
    rw [networks_cons, he, Set.empty_union, hi]

section

variable {cfg : SplitConfig} {req : ConnRequest}

theorem decide_padded {forceDirectCidrs forceTunnelCidrs : List String}
    (hd : Padded cfg.forceDirectCidrs forceDirectCidrs) (ht : Padded cfg.forceTunnelCidrs forceTunnelCidrs)
    (tunnelUp : Bool) :
    decide req { cfg with forceDirectCidrs, forceTunnelCidrs } tunnelUp = decide req cfg tunnelUp := by
  obtain ⟨r, hr⟩ := exists_decides_ladder cfg req
  have hl : ladder { cfg with forceDirectCidrs, forceTunnelCidrs } = ladder cfg := by
    simp only [ladder, addressRungs, directRungs, hd.networks, ht.networks]
    rfl
  rw [decide_of_decides hr, decide_of_decides (hl ▸ hr)]

theorem decide_mode_of_address (h : ¬Undecided (addressRungs cfg) req) (tunnelUp : Bool) :
    decide req { cfg with mode := .exclusive } tunnelUp = decide req { cfg with mode := .inclusive } tunnelUp := by
  obtain ⟨r, hr⟩ := exists_decides_ladder { cfg with mode := .inclusive } req
  rcases decides_exclusive hr with ⟨_, hr'⟩ | ⟨hu, _⟩
  case inl => rw [decide_of_decides hr, decide_of_decides hr']
  case inr => exact absurd hu h

-- What the two modes make of a connection that no address decides about.
theorem exists_decide_modes (h : Undecided (addressRungs cfg) req) :
    ∃ r, ∀ tunnelUp,
      decide req { cfg with mode := .inclusive } tunnelUp = killSwitched cfg.killSwitch tunnelUp r ∧
      decide req { cfg with mode := .exclusive } tunnelUp = killSwitched cfg.killSwitch tunnelUp r.other := by
  obtain ⟨r, hr⟩ := exists_decides_ladder { cfg with mode := .inclusive } req
  rcases decides_exclusive hr with ⟨hn, _⟩ | ⟨_, hr'⟩
  case inl => exact absurd h hn
  case inr => exact ⟨r, fun tunnelUp => ⟨decide_of_decides hr tunnelUp, decide_of_decides hr' tunnelUp⟩⟩

end

-- Without a tunnel and without the kill switch both modes let a connection out.
theorem modes_agree_without_tunnel :
    ¬∀ (cfg : SplitConfig) (req : ConnRequest) (tunnelUp : Bool), Undecided (addressRungs cfg) req →
      (decide req { cfg with mode := .inclusive } tunnelUp = .tunnel ↔
        decide req { cfg with mode := .exclusive } tunnelUp = .direct) := by
  intro h
  have hu : Undecided (addressRungs {}) ⟨{}, .v4 0x08080808, 443⟩ := by
    simp only [Undecided, addressRungs, directRungs, List.cons_append, List.nil_append, List.forall_mem_cons,
      Set.mem_ofPred_eq, ← hairpin_iff, ← cidrsContain_iff]
    exact ⟨by decide, by decide +kernel, by decide, by decide, fun _ hr => absurd hr List.not_mem_nil⟩
  have hd : decide ⟨{}, .v4 0x08080808, 443⟩ {} false = .direct := by decide +kernel
  have he : decide ⟨{}, .v4 0x08080808, 443⟩ { mode := .exclusive } false = .direct := by decide +kernel
  exact absurd (hd.symm.trans ((h {} _ false hu).mpr he)) Action.noConfusion

theorem decide_follows_ladder (cfg : SplitConfig) (req : ConnRequest) (tunnelUp : Bool) :
    (∃! r, Decides (ladder cfg) req r) ∧
    (∀ r, Decides (ladder cfg) req r → decide req cfg tunnelUp = killSwitched cfg.killSwitch tunnelUp r) ∧
    (req.dstIp ∈ endpoints cfg ∨ req.dstIp ∈ networks alwaysBypassCidrs ∨
        req.dstIp ∈ networks cfg.forceDirectCidrs →
      decide req cfg tunnelUp = .direct) ∧
    (cfg.killSwitch = true → (decide req cfg false = .block ↔ decide req cfg true = .tunnel)) ∧
    (∀ forceDirectCidrs forceTunnelCidrs, Padded cfg.forceDirectCidrs forceDirectCidrs →
      Padded cfg.forceTunnelCidrs forceTunnelCidrs →
      decide req { cfg with forceDirectCidrs, forceTunnelCidrs } tunnelUp = decide req cfg tunnelUp) ∧
    (¬Undecided (addressRungs cfg) req →
      decide req { cfg with mode := .exclusive } tunnelUp =
        decide req { cfg with mode := .inclusive } tunnelUp) ∧
    (Undecided (addressRungs cfg) req →
      (decide req { cfg with mode := .inclusive } true = .tunnel ↔
        decide req { cfg with mode := .exclusive } true = .direct) ∧
      (decide req { cfg with mode := .inclusive } true = .direct ↔
        decide req { cfg with mode := .exclusive } true = .tunnel) ∧
      ∃ r, ∀ up, decide req { cfg with mode := .inclusive } up = killSwitched cfg.killSwitch up r ∧
        decide req { cfg with mode := .exclusive } up = killSwitched cfg.killSwitch up r.other) := by
  refine ⟨?unique, ?ladder, ?direct, decide_block_iff, ?padded, ?address, ?modes⟩
  case unique =>
    obtain ⟨r, hr⟩ := exists_decides_ladder cfg req
    exact ⟨r, hr, fun r' hr' => hr'.unique hr⟩
  case ladder => exact fun r hr => decide_of_decides hr tunnelUp
  case direct =>
    intro h
    exact decide_of_decides (decides_direct (not_not.mpr h ∘ undecided_directRungs_iff.mp)) tunnelUp
  case padded  => exact fun _ _ hd ht => decide_padded hd ht tunnelUp
  case address => exact fun h => decide_mode_of_address h tunnelUp
  case modes =>
    intro h
    obtain ⟨r, hr⟩ := exists_decide_modes h
    refine ⟨?_, ?_, r, hr⟩
    · rw [(hr true).1, (hr true).2]
      cases r <;> simp [killSwitched, Route.other]
    · rw [(hr true).1, (hr true).2]
      cases r <;> simp [killSwitched, Route.other]

end JammVpn.Split
