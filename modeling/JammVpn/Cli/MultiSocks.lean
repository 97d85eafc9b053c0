import Mathlib.Data.List.TakeWhile
import JammVpn.Cli.BuildEngine

-- Listeners with a node each, or with none, and their engines.
namespace JammVpn

-- A listener, with the engine that new connections use.
structure ProxyController where
  server : Option String
  engine : Engine

namespace ProxyController

def reload (geo : GeoLoader) (cfg : AppConfig) (p : ProxyController) :
    Except BuildError ProxyController := do
  let engine ← buildEngine geo cfg p.server
  return { p with engine }

end ProxyController

structure MultiSocks where
  proxies : List ProxyController

namespace MultiSocks

-- The first error ends the loop. Listeners before it keep their new engines.
def reloadProxies (geo : GeoLoader) (cfg : AppConfig) :
    List ProxyController → List ProxyController × Except BuildError Unit
  | []      => ([], .ok ())
  | p :: ps =>
    match p.reload geo cfg with
    | .error e => (p :: ps, .error e)
    | .ok p'   =>
      let r := reloadProxies geo cfg ps
      (p' :: r.1, r.2)

def reload (geo : GeoLoader) (cfg : AppConfig) (socks : MultiSocks) :
    MultiSocks × Except BuildError Unit :=
  let r := reloadProxies geo cfg socks.proxies
  ({ proxies := r.1 }, r.2)

end MultiSocks

section Reload

variable {geo : GeoLoader} {cfg : AppConfig} {p : ProxyController}

namespace ProxyController

-- A listener with the engine that the configuration has for it.
def rebuilt (geo : GeoLoader) (cfg : AppConfig) (p : ProxyController) : ProxyController :=
  { p with engine := .fromConfig geo (cfg.effective p.server) }

theorem rebuilt_eq_self : p.rebuilt geo cfg = p ↔ p.engine = .fromConfig geo (cfg.effective p.server) := by
  cases p
  simp [rebuilt, eq_comm]

theorem reload_of_buildable (h : cfg.buildable geo p.server = true) :
    p.reload geo cfg = .ok (p.rebuilt geo cfg) := by
  rw [reload, AppConfig.buildEngine_of_buildable h]
  rfl

theorem reload_of_not_buildable (h : ¬cfg.buildable geo p.server = true) :
    ∃ e, p.reload geo cfg = .error e := by
  cases hb : buildEngine geo cfg p.server
  case error e => exact ⟨e, by rw [reload, hb]; rfl⟩
  case ok e    => exact absurd (AppConfig.buildable_of_buildEngine hb) h

end ProxyController

namespace MultiSocks

-- The listeners before the first one that has no engine are reloaded.
theorem reloadProxies_fst (ps : List ProxyController) :
    (reloadProxies geo cfg ps).1 =
      (ps.takeWhile fun p => cfg.buildable geo p.server).map (·.rebuilt geo cfg) ++
      ps.dropWhile fun p => cfg.buildable geo p.server := by
  induction ps
  case nil => rfl
  case cons p ps hi =>
    by_cases hb : cfg.buildable geo p.server = true
    case pos =>
      simp only [reloadProxies, ProxyController.reload_of_buildable hb, List.takeWhile_cons, List.dropWhile_cons,
        hb, if_true, hi, List.map_cons, List.cons_append]
    case neg =>
      have ⟨e, he⟩ := ProxyController.reload_of_not_buildable hb
      simp only [reloadProxies, he, List.takeWhile_cons, List.dropWhile_cons, hb, if_false, Bool.false_eq_true,
        List.map_nil, List.nil_append]

theorem reloadProxies_snd (ps : List ProxyController) :
    (reloadProxies geo cfg ps).2 = .ok () ↔ ∀ p ∈ ps, cfg.buildable geo p.server = true := by
  induction ps
  case nil => simp [reloadProxies]
  case cons p ps hi =>
    rw [List.forall_mem_cons, ← hi]
    by_cases hb : cfg.buildable geo p.server = true
    case pos =>
      rw [reloadProxies, ProxyController.reload_of_buildable hb]
      exact (and_iff_right hb).symm
    case neg =>
      have ⟨e, he⟩ := ProxyController.reload_of_not_buildable hb
      rw [reloadProxies, he]
      exact iff_of_false (by simp) fun h => hb h.1

theorem map_rebuilt_eq_self {ps : List ProxyController} :
    ps.map (·.rebuilt geo cfg) = ps ↔ ∀ p ∈ ps, p.engine = .fromConfig geo (cfg.effective p.server) := by
  induction ps
  case nil => simp
  case cons p ps hi => simp only [List.map_cons, List.cons.injEq, hi, ProxyController.rebuilt_eq_self,
    List.forall_mem_cons]

-- All listeners are reloaded or none is, unless one that is reloaded gets another engine and a later
-- one has none.
theorem reload_all_or_none (socks : MultiSocks) :
    ((socks.reload geo cfg).2 = .ok () ∧
        List.Forall₂ (fun p q => q.server = p.server ∧ buildEngine geo cfg p.server = .ok q.engine)
          socks.proxies (socks.reload geo cfg).1.proxies ∨
      (∃ e, (socks.reload geo cfg).2 = .error e) ∧ (socks.reload geo cfg).1 = socks) ↔
    (∀ p ∈ socks.proxies, cfg.buildable geo p.server = true) ∨
      ∀ p ∈ socks.proxies.takeWhile fun p => cfg.buildable geo p.server,
        p.engine = .fromConfig geo (cfg.effective p.server) := by
  have hs : (socks.reload geo cfg).2 = .ok () ↔ ∀ p ∈ socks.proxies, cfg.buildable geo p.server = true :=
    reloadProxies_snd socks.proxies
  have hp := @reloadProxies_fst geo cfg socks.proxies
  by_cases ha : ∀ p ∈ socks.proxies, cfg.buildable geo p.server = true
  case pos =>
    refine iff_of_true (.inl ⟨hs.mpr ha, ?_⟩) (.inl ha)
    have ht : (socks.proxies.takeWhile fun p => cfg.buildable geo p.server) = socks.proxies :=
      List.takeWhile_eq_self_iff.mpr ha
    have hd : (socks.proxies.dropWhile fun p => cfg.buildable geo p.server) = [] :=
      List.dropWhile_eq_nil_iff.mpr ha
    show List.Forall₂ _ socks.proxies (reloadProxies geo cfg socks.proxies).1
    rw [hp, ht, hd, List.append_nil, List.forall₂_map_right_iff, List.forall₂_same]
    exact fun p hm => ⟨rfl, AppConfig.buildEngine_of_buildable (ha p hm)⟩
  case neg =>
    rw [or_iff_right fun h => ha (hs.mp h.1), or_iff_right ha, ← map_rebuilt_eq_self]
    have he : ∃ e, (socks.reload geo cfg).2 = .error e := by
      cases hr : (socks.reload geo cfg).2
      case error e => exact ⟨e, rfl⟩
      case ok      => exact absurd (hs.mp hr) ha
    rw [and_iff_right he]
    have hd : socks.proxies.takeWhile (fun p => cfg.buildable geo p.server) ++
        socks.proxies.dropWhile (fun p => cfg.buildable geo p.server) = socks.proxies :=
      List.takeWhile_append_dropWhile
    have hr : (socks.reload geo cfg).1 = socks ↔ (reloadProxies geo cfg socks.proxies).1 = socks.proxies := by
      cases socks
      simp [reload]
    rw [hr, hp]
    nth_rewrite 3 [← hd]
    exact List.append_left_inj _

-- The node of the second listener is gone: the first one is reloaded, and the reload fails.
theorem first_reloaded_before_missing_node :
    ¬∀ (geo : GeoLoader) (cfg : AppConfig) (socks : MultiSocks),
      (socks.reload geo cfg).2 = .ok () ∧
        List.Forall₂ (fun p q => q.server = p.server ∧ buildEngine geo cfg p.server = .ok q.engine)
          socks.proxies (socks.reload geo cfg).1.proxies ∨
      (∃ e, (socks.reload geo cfg).2 = .error e) ∧ (socks.reload geo cfg).1 = socks := by
  intro h
  let geo : GeoLoader := ⟨fun _ => .error "", fun _ => .error ""⟩
  let node (name : String) : ServerProfile := ⟨name, .trojan, "1.1.1.1", 443, .ofList [("password", "p")], []⟩
  let before : AppConfig := { servers := [node "A", node "B"] }
  let after : AppConfig := { servers := [node "A"], rules := [{ action := .direct }] }
  let socks : MultiSocks :=
    ⟨["A", "B"].map fun n => ⟨some n, .fromConfig geo (before.effective (some n))⟩⟩
  obtain ⟨hr, -⟩ | ⟨-, hr⟩ := h geo after socks
  case inl => cases hr
  case inr =>
    have hr := congrArg (fun socks => socks.proxies.map (·.engine.rules.length)) hr
    exact absurd hr (by decide +kernel)

end MultiSocks
end Reload
end JammVpn
