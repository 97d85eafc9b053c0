import Mathlib.Data.Nat.Count
import JammVpn.Cli.Theorems.Distinct

-- Which server a name stands for after names have been made distinct.
namespace JammVpn

open Text

section Counting

variable {p p' : Nat → Prop} [DecidablePred p] [DecidablePred p'] {c k m j : Nat}

theorem count_congr (hp : ∀ i, p' i ↔ p i) (n : Nat) : Nat.count p' n = Nat.count p n :=
  le_antisymm (Nat.count_mono_left fun i _ => (hp i).mp) (Nat.count_mono_left fun i _ => (hp i).mpr)

-- Leaving out a number that is not among the first `c` leaves the first `c` as they are.
theorem count_lt_iff_of_removed (hp : ∀ i, p' i ↔ p i ∧ i ≠ m) (hm : c ≤ Nat.count p m) (hj : j ≠ m) :
    Nat.count p' j < c ↔ Nat.count p j < c := by
  have hle : Nat.count p' j ≤ Nat.count p j := Nat.count_mono_left fun i _ hi => ((hp i).mp hi).1
  refine ⟨fun h => ?_, hle.trans_lt⟩
  obtain hlt | hgt := Nat.lt_or_gt_of_ne hj
  case inl =>
    -- Below the number nothing is left out.
    have : Nat.count p j ≤ Nat.count p' j :=
      Nat.count_mono_left fun i hi hpi => (hp i).mpr ⟨hpi, (hi.trans hlt).ne⟩
    exact this.trans_lt h
  case inr =>
    have hsame : Nat.count p m ≤ Nat.count p' m :=
      Nat.count_mono_left fun i hi hpi => (hp i).mpr ⟨hpi, hi.ne⟩
    exact absurd (hm.trans (hsame.trans (Nat.count_monotone p' hgt.le))) (Nat.not_le.mpr h)

-- The first number that is not among the first `c` is the next one.
theorem count_lt_succ_iff_of_next (hk : p k) (hc : ¬Nat.count p k < c) (hf : ∀ i < k, p i → Nat.count p i < c)
    (hj : p j) : Nat.count p j < c + 1 ↔ Nat.count p j < c ∨ j = k := by
  have hle (n : Nat) (hn : n ≤ k) : Nat.count p n ≤ c := by
    induction n
    case zero => simp
    case succ n hi =>
      rw [Nat.count_succ]
      split
      case isTrue h => exact hf n hn h
      case isFalse  => exact hi (Nat.le_of_succ_le hn)
  constructor
  case mp =>
    intro h
    by_cases hj' : Nat.count p j < c
    case pos => exact .inl hj'
    case neg =>
      have he : Nat.count p j = Nat.count p k := by
        have := hle k (Nat.le_refl k)
        omega
      exact .inr (Nat.count_injective hj hk he)
  case mpr =>
    rintro (h | rfl)
    case inl => exact Nat.lt_succ_of_lt h
    case inr => exact Nat.lt_succ_of_le (hle j (Nat.le_refl j))

end Counting

-- A name with an address ends in a digit, and one with a number does not: it is clear which is which.
section Decode

theorem getLast?_addressed (s : ServerProfile) : s.addressed.toList.getLast? ≠ some ')' := by
  rw [ServerProfile.addressed, String.toList_append, String.toList_ofList]
  exact getLast?_append_decimal (by decide) _ _

theorem decimal_ne_paren (n : Nat) : ∀ c ∈ (decimal n).reverse, (c != '(') = true := by
  intro c hc
  have := Nat.isDigit_of_mem_toDigits (by decide) (by decide) (List.mem_reverse.mp hc)
  rw [bne_iff_ne]
  rintro rfl
  exact absurd this (by decide)

theorem getLast?_numberText {n : Nat} (h : ¬n ≤ 1) (s : List Char) :
    (s ++ numberText n).getLast? = some ')' := by
  have : s ++ numberText n = s ++ ' ' :: '(' :: decimal n ++ [')'] := by simp [numberText, h]
  rw [this, List.getLast?_concat]

theorem eq_of_numbered_eq {b b' : String} {m n : Nat} (hb : b.toList.getLast? ≠ some ')')
    (hb' : b'.toList.getLast? ≠ some ')') (h : numbered b m = numbered b' n) : b = b' := by
  have ht := congrArg String.toList h
  rw [toList_numbered, toList_numbered] at ht
  have hone {n : Nat} (h : n ≤ 1) : numberText n = [] := if_pos h
  by_cases hm : m ≤ 1
  case pos =>
    rw [hone hm, List.append_nil] at ht
    by_cases hn : n ≤ 1
    case pos => exact String.toList_inj.mp (by simpa [hone hn] using ht)
    case neg => exact absurd (ht ▸ getLast?_numberText hn b'.toList) hb
  case neg =>
    by_cases hn : n ≤ 1
    case pos =>
      rw [hone hn, List.append_nil] at ht
      exact absurd (ht ▸ getLast?_numberText hm b.toList) hb'
    case neg =>
      -- Read backwards, the digits end at the bracket.
      have hr := congrArg List.reverse ht
      simp only [numberText, hm, hn, if_false, List.reverse_append, List.reverse_cons, List.reverse_nil,
        List.nil_append, List.append_assoc, List.cons_append, List.cons.injEq, true_and] at hr
      have hd := congrArg (List.dropWhile (· != '(')) hr
      rw [List.dropWhile_append_of_pos (decimal_ne_paren m),
        List.dropWhile_append_of_pos (decimal_ne_paren n)] at hd
      have hl : b.toList.reverse = b'.toList.reverse := by simpa using hd
      exact String.toList_inj.mp (List.reverse_injective hl)

end Decode

-- The bases of the servers that repeat a name.
def repeats (seen : List String) : List ServerProfile → List String
  | []      => []
  | s :: ss =>
    if s.name ∈ seen then s.addressed :: repeats (s.name :: seen) ss else repeats (s.name :: seen) ss

-- No server carries the candidate.
def Unclaimed (servers : List ServerProfile) (base : String) (i : Nat) : Prop :=
  numbered base (i + 1) ∉ servers.map (·.name)

instance (servers : List ServerProfile) (base : String) : DecidablePred (Unclaimed servers base) :=
  fun i => inferInstanceAs (Decidable (numbered base (i + 1) ∉ servers.map (·.name)))

-- The names that are in use behind `servers`.
def usedNames (servers : List ServerProfile) : List String :=
  ((distinctNodeNames [] servers).map (·.name)).reverse

-- The name is given to one of `servers` that repeats a name: it is among the first unclaimed ones.
def Given (servers : List ServerProfile) (name : String) : Prop :=
  ∃ base i, name = numbered base (i + 1) ∧ Unclaimed servers base i ∧
    Nat.count (Unclaimed servers base) i < (repeats [] servers).count base

section Used

variable {servers : List ServerProfile} {s : ServerProfile}

theorem distinctNodeNames_concat (used : List String) (a b : List ServerProfile) :
    distinctNodeNames used (a ++ b) =
      distinctNodeNames used a ++ distinctNodeNames (((distinctNodeNames used a).map (·.name)).reverse ++ used) b := by
  induction a generalizing used
  case nil => rfl
  case cons s a hi =>
    rw [List.cons_append, distinctNodeNames, distinctNodeNames]
    split <;> simp [hi]

theorem repeats_append (seen : List String) (a b : List ServerProfile) :
    repeats seen (a ++ b) = repeats seen a ++ repeats ((a.map (·.name)).reverse ++ seen) b := by
  induction a generalizing seen
  case nil => rfl
  case cons s a hi =>
    rw [List.cons_append, repeats, repeats]
    split <;> simp [hi]

theorem getLast?_of_mem_repeats {seen : List String} {base : String} (h : base ∈ repeats seen servers) :
    base.toList.getLast? ≠ some ')' := by
  induction servers generalizing seen
  case nil => exact absurd h List.not_mem_nil
  case cons s ss hi =>
    rw [repeats] at h
    split at h
    case isTrue =>
      obtain rfl | h := List.mem_cons.mp h
      case inl => exact getLast?_addressed s
      case inr => exact hi h
    case isFalse => exact hi h

theorem usedNames_concat : usedNames (servers ++ [s]) =
    (if s.name ∈ usedNames servers then freshName (usedNames servers) s.addressed else s.name) ::
      usedNames servers := by
  rw [usedNames, distinctNodeNames_concat, List.append_nil, distinctNodeNames, List.map_append,
    List.reverse_append]
  show (List.map ServerProfile.name (if s.name ∈ usedNames servers then _ else _)).reverse ++ usedNames servers = _
  split <;> rfl

-- The names in use are those that servers carry and those that are given to repeats.
def Counted (servers : List ServerProfile) : Prop :=
  ∀ name, name ∈ usedNames servers ↔ name ∈ servers.map (·.name) ∨ Given servers name

theorem unclaimed_concat {base : String} {i : Nat} :
    Unclaimed (servers ++ [s]) base i ↔ Unclaimed servers base i ∧ numbered base (i + 1) ≠ s.name := by
  simp [Unclaimed, not_or]

theorem given_concat_of_new (hn : s.name ∉ servers.map (·.name)) (hg : ¬Given servers s.name) {name : String}
    (hne : name ≠ s.name) : Given (servers ++ [s]) name ↔ Given servers name := by
  have hr : repeats [] (servers ++ [s]) = repeats [] servers := by
    have hn' : s.name ∉ (servers.map (·.name)).reverse ++ [] := by simpa using hn
    rw [repeats_append, repeats, if_neg hn', repeats, List.append_nil]
  refine exists₂_congr fun base i => and_congr_right fun he => ?_
  have hp (k : Nat) : Unclaimed (servers ++ [s]) base k ↔
      Unclaimed servers base k ∧ numbered base (k + 1) ≠ s.name := unclaimed_concat
  have hi : numbered base (i + 1) ≠ s.name := he ▸ hne
  rw [hr]
  refine and_congr ((hp i).trans (and_iff_left hi)) ?_
  by_cases hm : ∃ m, s.name = numbered base (m + 1)
  case neg =>
    rw [count_congr fun k => (hp k).trans (and_iff_left fun h => hm ⟨k, h.symm⟩)]
  case pos =>
    obtain ⟨m, hm⟩ := hm
    apply count_lt_iff_of_removed (m := m)
    case hp =>
      intro k
      rw [hp, hm]
      refine and_congr_right fun _ => not_congr ⟨fun h => ?_, fun h => h ▸ rfl⟩
      exact Nat.succ.inj (numbered_inj (Nat.le_add_left 1 k) (Nat.le_add_left 1 m) h)
    case hm => exact Nat.not_lt.mp fun h => hg ⟨base, m, hm, fun hc => hn (hm ▸ hc), h⟩
    case hj =>
      rintro rfl
      exact hne (he.trans hm.symm)

theorem Counted.concat_new (h : Counted servers) (hn : s.name ∉ usedNames servers) :
    Counted (servers ++ [s]) := by
  have ⟨hm, hg⟩ := not_or.mp (mt (h s.name).mpr hn)
  intro name
  rw [usedNames_concat, if_neg hn, List.mem_cons, List.map_append, List.mem_append, List.map_singleton,
    List.mem_singleton, h name]
  by_cases he : name = s.name
  case pos => simp [he]
  case neg => simp [he, given_concat_of_new hm hg he]

-- The name that a repeat is given is the next unclaimed one.
theorem Counted.exists_next (h : Counted servers) (s : ServerProfile) :
    ∃ k, freshName (usedNames servers) s.addressed = numbered s.addressed (k + 1) ∧
      Unclaimed servers s.addressed k ∧
      ¬Nat.count (Unclaimed servers s.addressed) k < (repeats [] servers).count s.addressed ∧
      ∀ i < k, Unclaimed servers s.addressed i →
        Nat.count (Unclaimed servers s.addressed) i < (repeats [] servers).count s.addressed := by
  have ⟨n, hn1, _, hf, hfu, hlt⟩ := freshName_spec (usedNames servers) s.addressed
  obtain ⟨k, rfl⟩ := Nat.exists_eq_add_of_le' hn1
  have hk : Unclaimed servers s.addressed k := fun hm => hfu ((h _).mpr (.inl (hf ▸ hm)))
  refine ⟨k, hf, hk, fun hl => hfu ((h _).mpr (.inr ⟨s.addressed, k, hf, hk, hl⟩)), fun i hi hu => ?_⟩
  obtain hm | ⟨base, j, he, _, hl⟩ := (h _).mp (hlt (i + 1) (Nat.le_add_left 1 i) (Nat.succ_lt_succ hi))
  case inl => exact absurd hm hu
  case inr =>
    have hb := getLast?_of_mem_repeats (List.count_pos_iff.mp (Nat.zero_lt_of_lt hl))
    obtain rfl := eq_of_numbered_eq (getLast?_addressed s) hb he
    have := numbered_inj (Nat.le_add_left 1 i) (Nat.le_add_left 1 j) he
    rwa [Nat.succ.inj this]

theorem given_concat_of_repeat (hn : s.name ∈ servers.map (·.name)) {k : Nat}
    (hk : Unclaimed servers s.addressed k)
    (hkc : ¬Nat.count (Unclaimed servers s.addressed) k < (repeats [] servers).count s.addressed)
    (hki : ∀ i < k, Unclaimed servers s.addressed i →
      Nat.count (Unclaimed servers s.addressed) i < (repeats [] servers).count s.addressed) (name : String) :
    Given (servers ++ [s]) name ↔ name = numbered s.addressed (k + 1) ∨ Given servers name := by
  have hr : repeats [] (servers ++ [s]) = repeats [] servers ++ [s.addressed] := by
    have hn' : s.name ∈ (servers.map (·.name)).reverse ++ [] := by simpa using hn
    rw [repeats_append, repeats, if_pos hn', repeats]
  have hp (base : String) (i : Nat) : Unclaimed (servers ++ [s]) base i ↔ Unclaimed servers base i := by
    rw [unclaimed_concat]
    exact and_iff_left_of_imp fun hu he => hu (he ▸ hn)
  constructor
  case mp =>
    rintro ⟨base, i, he, hu, hl⟩
    rw [count_congr (hp base), hr, List.count_append] at hl
    rw [hp] at hu
    by_cases hb : base = s.addressed
    case pos =>
      subst hb
      rw [List.count_singleton_self] at hl
      obtain hl | rfl := (count_lt_succ_iff_of_next hk hkc hki hu).mp hl
      case inl => exact .inr ⟨_, i, he, hu, hl⟩
      case inr => exact .inl he
    case neg =>
      rw [List.count_singleton, if_neg (by simpa using Ne.symm hb)] at hl
      exact .inr ⟨base, i, he, hu, hl⟩
  case mpr =>
    rintro (he | ⟨base, i, he, hu, hl⟩)
    case inl =>
      refine ⟨s.addressed, k, he, (hp _ _).mpr hk, ?_⟩
      rw [count_congr (hp _), hr, List.count_append, List.count_singleton_self]
      exact (count_lt_succ_iff_of_next hk hkc hki hk).mpr (.inr rfl)
    case inr =>
      refine ⟨base, i, he, (hp _ _).mpr hu, ?_⟩
      rw [count_congr (hp _), hr, List.count_append]
      exact Nat.lt_add_right _ hl

theorem Counted.concat_repeat (h : Counted servers) (hn : s.name ∈ servers.map (·.name)) :
    Counted (servers ++ [s]) := by
  obtain ⟨k, hf, hk, hkc, hki⟩ := h.exists_next s
  have hnames (name : String) : name ∈ (servers ++ [s]).map (·.name) ↔ name ∈ servers.map (·.name) := by
    rw [List.map_append, List.mem_append, List.map_singleton, List.mem_singleton]
    exact or_iff_left_of_imp fun he => he ▸ hn
  intro name
  rw [usedNames_concat, if_pos ((h _).mpr (.inl hn)), List.mem_cons, h name, hnames, hf,
    given_concat_of_repeat hn hk hkc hki]
  exact or_left_comm

theorem counted_of_kept (h : ∀ before s after, servers = before ++ s :: after →
    s.name ∉ before.map (·.name) → Counted before → s.name ∉ usedNames before) : Counted servers := by
  induction servers using List.reverseRecOn
  case nil =>
    intro name
    refine iff_of_false List.not_mem_nil ?_
    rintro (hm | ⟨base, i, -, -, hl⟩)
    case inl => cases hm
    case inr => cases hl
  case append_singleton servers s hi =>
    have hc : Counted servers := hi fun before t after he =>
      h before t (after ++ [s]) (by rw [he, List.append_assoc, List.cons_append])
    by_cases hn : s.name ∈ servers.map (·.name)
    case pos => exact hc.concat_repeat hn
    case neg => exact hc.concat_new (h servers s [] rfl hn hc)

-- The first server with a name keeps it if the name is not given to a server in front of it.
theorem kept_iff_not_given :
    (∀ before s after, servers = before ++ s :: after → s.name ∉ before.map (·.name) →
      s.name ∉ usedNames before) ↔
    ∀ before s after, servers = before ++ s :: after → s.name ∉ before.map (·.name) → ¬Given before s.name := by
  have hfront {before after before' after' : List ServerProfile} {s s' : ServerProfile}
      (he : servers = before ++ s :: after) (he' : before = before' ++ s' :: after') :
      servers = before' ++ s' :: (after' ++ s :: after) := by
    rw [he, he', List.append_assoc, List.cons_append]
  constructor
  case mp =>
    intro h before s after he hn hg
    have hc : Counted before := counted_of_kept fun b t a he' hn' _ => h b t _ (hfront he he') hn'
    exact h before s after he hn ((hc _).mpr (.inr hg))
  case mpr =>
    intro h before s after he hn hm
    have hc : Counted before := counted_of_kept fun b t a he' hn' hc' hm' =>
      h b t _ (hfront he he') hn' (((hc' _).mp hm').resolve_left hn')
    exact h before s after he hn (((hc _).mp hm).resolve_left hn)

theorem findIdx?_name_append {before after : List ServerProfile} (hn : s.name ∉ before.map (·.name)) :
    (before ++ s :: after).findIdx? (·.name == s.name) = some before.length := by
  have hb : before.findIdx? (·.name == s.name) = none := by
    rw [List.findIdx?_eq_none_iff]
    exact fun t ht => beq_eq_false_iff_ne.mpr fun he => hn (List.mem_map.mpr ⟨t, ht, he⟩)
  rw [List.findIdx?_append, hb, List.findIdx?_cons, if_pos (beq_self_eq_true s.name)]
  simp

theorem exists_of_findIdx?_name {name : String} {i : Nat}
    (h : servers.findIdx? (·.name == name) = some i) :
    ∃ before s after, servers = before ++ s :: after ∧ before.length = i ∧ s.name = name ∧
      name ∉ before.map (·.name) := by
  have ⟨hi, hp, hf⟩ := List.findIdx?_eq_some_iff_getElem.mp h
  refine ⟨servers.take i, servers[i], servers.drop (i + 1), ?_, List.length_take_of_le hi.le, beq_iff_eq.mp hp, ?_⟩
  case refine_1 => rw [← List.drop_eq_getElem_cons hi, List.take_append_drop]
  case refine_2 =>
    intro hm
    have ⟨t, ht, he⟩ := List.mem_map.mp hm
    obtain ⟨j, hj, rfl⟩ := List.mem_take_iff_getElem.mp ht
    exact hf j (lt_min_iff.mp hj).1 (beq_iff_eq.mpr he)

-- Where the name of a server that is the first to carry it is looked up afterwards.
theorem findIdx?_distinctNodeNames {before after : List ServerProfile} :
    (distinctNodeNames [] (before ++ s :: after)).findIdx? (·.name == s.name) = some before.length ↔
      s.name ∉ usedNames before := by
  have hu : s.name ∈ usedNames before ↔ s.name ∈ (distinctNodeNames [] before).map (·.name) := List.mem_reverse
  have hl := length_distinctNodeNames [] before
  rw [distinctNodeNames_concat, List.append_nil, distinctNodeNames]
  constructor
  case mp =>
    intro h hm
    obtain ⟨t, ht, he⟩ := List.mem_map.mp (hu.mp hm)
    have hs : ((distinctNodeNames [] before).findIdx? (·.name == s.name)).isSome := by
      rw [List.findIdx?_isSome]
      exact List.any_eq_true.mpr ⟨t, ht, beq_iff_eq.mpr he⟩
    obtain ⟨i, hi⟩ := Option.isSome_iff_exists.mp hs
    rw [List.findIdx?_append, hi, Option.some_or] at h
    obtain ⟨hlt, -⟩ := List.findIdx?_eq_some_iff_getElem.mp hi
    exact absurd (Option.some.inj h) (by omega)
  case mpr =>
    intro hm
    have hm' : s.name ∉ ((distinctNodeNames [] before).map (·.name)).reverse := hm
    rw [if_neg hm', findIdx?_name_append (mt hu.mpr hm), hl]

end Used

-- A name stands for the server that it stood for, unless some server is the first to carry a name that
-- servers in front of it are given: repeats of a name take the unclaimed candidates one by one.
theorem names_denote_same_iff (cfg : AppConfig) :
    (∀ name i, cfg.servers.findIdx? (·.name == name) = some i →
      (ensureDistinctNodeNames cfg).servers.findIdx? (·.name == name) = some i) ↔
    ∀ before s after, cfg.servers = before ++ s :: after → s.name ∉ before.map (·.name) →
      ∀ base i, s.name = numbered base (i + 1) →
        (repeats [] before).count base ≤ Nat.count (Unclaimed before base) i := by
  have hk : (∀ name i, cfg.servers.findIdx? (·.name == name) = some i →
      (ensureDistinctNodeNames cfg).servers.findIdx? (·.name == name) = some i) ↔
      ∀ before s after, cfg.servers = before ++ s :: after → s.name ∉ before.map (·.name) →
        s.name ∉ usedNames before := by
    constructor
    case mp =>
      intro h before s after he hn
      have h := h s.name before.length (he ▸ findIdx?_name_append hn)
      rw [ensureDistinctNodeNames, he] at h
      exact findIdx?_distinctNodeNames.mp h
    case mpr =>
      intro h name i hi
      obtain ⟨before, s, after, he, rfl, rfl, hn⟩ := exists_of_findIdx?_name hi
      rw [ensureDistinctNodeNames, he]
      exact findIdx?_distinctNodeNames.mpr (h before s after he hn)
  rw [hk, kept_iff_not_given]
  refine forall₃_congr fun before s after => forall₂_congr fun _ hn => ?_
  constructor
  case mp => exact fun h base i he => Nat.not_lt.mp fun hl => h ⟨base, i, he, fun hm => hn (he ▸ hm), hl⟩
  case mpr =>
    rintro h ⟨base, i, he, -, hl⟩
    exact absurd hl (Nat.not_lt.mpr (h base i he))

-- Two servers with one name and address, and a third that is called what the second one becomes.
theorem name_given_to_repeat :
    ¬∀ (cfg : AppConfig) (name : String) (i : Nat), cfg.servers.findIdx? (·.name == name) = some i →
      (ensureDistinctNodeNames cfg).servers.findIdx? (·.name == name) = some i := by
  intro h
  let node (name address : String) : ServerProfile := ⟨name, .trojan, address, 1, .empty, []⟩
  have := h { servers := [node "A" "h", node "A" "h", node "A · h:1" "g"] } "A · h:1" 2 (by decide +kernel)
  exact absurd this (by decide +kernel)

end JammVpn
