import JammVpn.Lib.Machine
import JammVpn.Lib.Maps

-- The reassembly of fragmented packets, which TUIC and Hysteria2 have in common. They differ in the keys
-- of their packets.
namespace JammVpn.Reassembly

-- Fragments with inconsistent numbers do not pass the decoders.
structure Fragment (κ : Type) where
  key   : κ
  total : Nat
  id    : Nat
  data  : List UInt8
  valid : id < total

-- The fragments of a packet as far as they have arrived.
structure Reasm where
  frags    : List (Option (List UInt8))
  received : Nat
  created  : Nat
  counted  : frags.countP Option.isSome = received

def maxReasm : Nat := 256

-- In nanoseconds.
def reasmTtl : Nat := 10000000000

namespace Reasm

def new (total now : Nat) : Reasm where
  frags := List.replicate total none
  received := 0
  created := now
  counted := by simp [List.countP_replicate]

-- A fragment that is already there is kept.
def put (r : Reasm) (id : Nat) (data : List UInt8) : Reasm :=
  if h : r.frags[id]? = some none then {
    frags := r.frags.set id (some data)
    received := r.received + 1
    created := r.created
    counted := by
      have ⟨hl, hn⟩ := List.getElem?_eq_some_iff.mp h
      rw [List.countP_set hl, hn, r.counted]
      rfl
  }
  else r

-- When all fragments have been counted, all of them are there.
def join (r : Reasm) : List UInt8 :=
  (r.frags.map (·.getD [])).flatten

end Reasm

abbrev Pending (κ : Type) := AssocMap κ Reasm

variable {κ : Type} [DecidableEq κ]

def retain (now : Nat) (m : Pending κ) : Pending κ :=
  m.filter fun (_, r) => now - r.created < reasmTtl

-- Which one of the oldest entries comes first depends on the hashes.
def oldest (tie : Nat) (m : Pending κ) : Option κ :=
  let first := m.entries.filter fun e => m.entries.all fun e' => e.2.created ≤ e'.2.created
  first[tie % first.length]?.map (·.1)

def makeRoom (tie : Nat) (key : κ) (m : Pending κ) : Pending κ :=
  if maxReasm ≤ m.size ∧ m.get key = none then
    match oldest tie m with
    | some k => m.erase k
    | none   => m
  else m

def reassemble (now tie : Nat) (f : Fragment κ) (m : Pending κ) : Option (List UInt8) × Pending κ :=
  let m := makeRoom tie f.key (retain now m)
  let entry := (m.get f.key).getD (.new f.total now)
  let m := m.insert f.key entry
  if entry.frags.length ≠ f.total then (none, m)
  else
    let entry := entry.put f.id f.data
    if entry.received = f.total then (some entry.join, m.erase f.key)
    else (none, m.insert f.key entry)

-- The fragment of a packet arrives at some time.
structure Arrival (κ : Type) where
  now  : Nat
  tie  : Nat
  frag : Fragment κ

def step (m : Pending κ) (a : Arrival κ) : Option (Pending κ) :=
  some (reassemble a.now a.tie a.frag m).2

section Entries

variable {now tie : Nat} {f : Fragment κ} {m : Pending κ} {k : κ} {r : Reasm}

theorem get_retain : (retain now m).get k = some r ↔ m.get k = some r ∧ now - r.created < reasmTtl := by
  simp [retain, AssocMap.get_filter, Option.filter_eq_some_iff]

theorem get_makeRoom {key : κ} (h : (makeRoom tie key m).get k = some r) : m.get k = some r := by
  simp only [makeRoom] at h
  split at h
  case isFalse => exact h
  case isTrue =>
    split at h
    case h_2 => exact h
    case h_1 k' _ =>
      rw [AssocMap.get_erase] at h
      split at h
      case isTrue  => cases h
      case isFalse => exact h

-- The entry to which a fragment belongs: one that has not expired, or a new one.
def Entry (now : Nat) (f : Fragment κ) (m : Pending κ) (r : Reasm) : Prop :=
  r = .new f.total now ∨ m.get f.key = some r ∧ now - r.created < reasmTtl

theorem entry_getD :
    Entry now f m (((makeRoom tie f.key (retain now m)).get f.key).getD (.new f.total now)) := by
  cases h : (makeRoom tie f.key (retain now m)).get f.key
  case none   => exact .inl rfl
  case some r => exact .inr (get_retain.mp (get_makeRoom h))

theorem get_reassemble_ne (hk : k ≠ f.key) :
    (reassemble now tie f m).2.get k = (makeRoom tie f.key (retain now m)).get k := by
  simp only [reassemble]
  split
  case isTrue => rw [AssocMap.get_insert, if_neg hk]
  case isFalse =>
    split
    case isTrue  => rw [AssocMap.get_erase, if_neg hk, AssocMap.get_insert, if_neg hk]
    case isFalse => rw [AssocMap.get_insert, if_neg hk, AssocMap.get_insert, if_neg hk]

-- What remains of the entry to which the fragment belongs.
theorem get_reassemble_key (h : (reassemble now tie f m).2.get f.key = some r) :
    ∃ e, Entry now f m e ∧ (r = e ∧ e.frags.length ≠ f.total ∨
      r = e.put f.id f.data ∧ e.frags.length = f.total ∧ r.received ≠ f.total) := by
  have he := @entry_getD κ _ now tie f m
  simp only [reassemble] at h
  generalize ((makeRoom tie f.key (retain now m)).get f.key).getD (.new f.total now) = e at h he
  refine ⟨e, he, ?_⟩
  split at h
  case isTrue hl =>
    rw [AssocMap.get_insert_self] at h
    exact .inl ⟨(Option.some.inj h).symm, hl⟩
  case isFalse hl =>
    split at h
    case isTrue =>
      rw [AssocMap.get_erase, if_pos rfl] at h
      cases h
    case isFalse hr =>
      rw [AssocMap.get_insert_self] at h
      cases h
      exact .inr ⟨rfl, not_not.mp hl, hr⟩

-- Whatever is pending afterwards was pending before, or belongs to the fragment.
theorem get_reassemble (h : (reassemble now tie f m).2.get k = some r) :
    m.get k = some r ∧ now - r.created < reasmTtl ∨
    k = f.key ∧ ∃ e, Entry now f m e ∧ e.frags.length = f.total ∧ r.received ≠ f.total ∧ r = e.put f.id f.data := by
  by_cases hk : k = f.key
  case neg => exact .inl (get_retain.mp (get_makeRoom (get_reassemble_ne hk ▸ h)))
  case pos =>
    cases hk
    obtain ⟨e, he, ⟨rfl, hl⟩ | ⟨hp, hl, hr⟩⟩ := get_reassemble_key h
    case inr => exact .inr ⟨rfl, e, he, hl, hr, hp⟩
    case inl =>
      rcases he with rfl | he
      · simp [Reasm.new] at hl
      · exact .inl he

theorem reassemble_eq_some {p : List UInt8} (h : (reassemble now tie f m).1 = some p) :
    ∃ e, Entry now f m e ∧ e.frags.length = f.total ∧
      (e.put f.id f.data).received = f.total ∧ p = (e.put f.id f.data).join := by
  have he := @entry_getD κ _ now tie f m
  simp only [reassemble] at h
  generalize ((makeRoom tie f.key (retain now m)).get f.key).getD (.new f.total now) = e at h he
  split at h
  case isTrue => cases h
  case isFalse hl =>
    split at h
    case isFalse   => cases h
    case isTrue hc => exact ⟨e, he, by simpa using hl, hc, (Option.some.inj h).symm⟩

end Entries

-- What there is of a packet when the fragments with some numbers have arrived.
def collected (parts : List (List UInt8)) (seen : List Nat) : List (Option (List UInt8)) :=
  parts.mapIdx fun i part => if i ∈ seen then some part else none

section Collected

variable {parts : List (List UInt8)} {seen seen' : List Nat} {r : Reasm} {i : Nat} {part : List UInt8}

theorem getElem?_collected :
    (collected parts seen)[i]? = parts[i]?.map fun part => if i ∈ seen then some part else none := by
  simp [collected]

@[simp]
theorem length_collected : (collected parts seen).length = parts.length := by
  simp [collected]

theorem collected_nil : collected parts [] = List.replicate parts.length none := by
  apply List.ext_getElem?
  intro i
  rw [getElem?_collected, List.getElem?_replicate]
  by_cases h : i < parts.length <;> simp [h]

theorem collected_congr (h : ∀ i, i ∈ seen ↔ i ∈ seen') :
    collected parts seen = collected parts seen' := by
  simp [collected, h]

theorem Reasm.frags_put (hr : r.frags = collected parts seen) (hi : parts[i]? = some part) :
    (r.put i part).frags = collected parts (i :: seen) := by
  have hl : i < parts.length := (List.getElem?_eq_some_iff.mp hi).1
  have hg : r.frags[i]? = some (if i ∈ seen then some part else none) := by
    rw [hr, getElem?_collected, hi]
    rfl
  by_cases hs : i ∈ seen
  case pos =>
    have hp : r.put i part = r := by simp [put, hg, hs]
    rw [hp, hr]
    apply collected_congr
    intro j
    exact ⟨.tail i, fun h => by cases h <;> assumption⟩
  case neg =>
    have hp : (r.put i part).frags = r.frags.set i (some part) := by simp [put, hg, hs]
    rw [hp, hr]
    apply List.ext_getElem?
    intro j
    rw [List.getElem?_set, length_collected, if_pos hl, getElem?_collected, getElem?_collected]
    by_cases hj : i = j
    case pos => simp [← hj, hi]
    case neg => simp [hj, Ne.symm hj]

theorem Reasm.received_eq_iff (hr : r.frags = collected parts seen) :
    r.received = parts.length ↔ ∀ i < parts.length, i ∈ seen := by
  have hc : r.received = parts.length ↔ ∀ x ∈ collected parts seen, x.isSome = true := by
    rw [← r.counted, hr, ← List.countP_eq_length, length_collected]
  rw [hc]
  constructor
  case mp =>
    intro h i hi
    have hg : (collected parts seen)[i]? = some (if i ∈ seen then some parts[i] else none) := by
      rw [getElem?_collected, List.getElem?_eq_getElem hi]
      rfl
    have := h _ (List.mem_of_getElem? hg)
    by_cases hs : i ∈ seen
    case pos => exact hs
    case neg => simp [hs] at this
  case mpr =>
    intro h x hx
    have ⟨i, hi, hx⟩ := List.getElem_of_mem hx
    rw [length_collected] at hi
    simp [collected, h i hi] at hx
    simp [← hx]

theorem Reasm.join_eq (hr : r.frags = collected parts seen) (h : ∀ i < parts.length, i ∈ seen) :
    r.join = parts.flatten := by
  have hm : r.frags.map (·.getD []) = parts := by
    apply List.ext_getElem?
    intro j
    rw [List.getElem?_map, hr, getElem?_collected]
    cases hj : parts[j]?
    case none => rfl
    case some part => simp [h j (List.getElem?_eq_some_iff.mp hj).1]
  rw [join, hm]

end Collected

-- The arrival neither finds the packet with this key expired nor one entry too many.
def Spares (key : κ) (m : Pending κ) (a : Arrival κ) : Prop :=
  (∀ r, m.get key = some r → a.now - r.created < reasmTtl) ∧
  ((retain a.now m).size < maxReasm ∨ (retain a.now m).get a.frag.key ≠ none)

-- The numbers of the fragments of a packet that have arrived.
def idsOf (key : κ) (es : List (Arrival κ)) : List Nat :=
  (es.filter (·.frag.key = key)).map (·.frag.id)

-- The arrival is not of this packet, or is one of its parts.
def Belongs (key : κ) (parts : List (List UInt8)) (a : Arrival κ) : Prop :=
  a.frag.key = key → a.frag.total = parts.length ∧ parts[a.frag.id]? = some a.frag.data

section Run

open Machine

variable {key : κ} {parts : List (List UInt8)} {seen : List Nat} {m m' : Pending κ} {a : Arrival κ}
variable {es : List (Arrival κ)}

-- The parts with these numbers are pending.
def Collects (key : κ) (parts : List (List UInt8)) (seen : List Nat) (m : Pending κ) : Prop :=
  ∀ now, ((m.get key).getD (.new parts.length now)).frags = collected parts seen

theorem Spares.makeRoom (h : Spares key m a) :
    makeRoom a.tie a.frag.key (retain a.now m) = retain a.now m := by
  rw [Reassembly.makeRoom, if_neg]
  rintro ⟨hs, hn⟩
  rcases h.2 with h | h
  · omega
  · exact h hn

theorem Spares.get_retain (h : Spares key m a) : (retain a.now m).get key = m.get key := by
  apply Option.ext
  intro r
  rw [Reassembly.get_retain]
  exact ⟨And.left, fun hr => ⟨hr, h.1 r hr⟩⟩

theorem get_reassemble_of_ne (hs : Spares key m a) (hk : a.frag.key ≠ key) :
    (reassemble a.now a.tie a.frag m).2.get key = m.get key := by
  rw [get_reassemble_ne (Ne.symm hk), hs.makeRoom, hs.get_retain]

-- What a part does to its packet.
theorem reassemble_part (hs : Spares key m a) (hc : Collects key parts seen m) (hk : a.frag.key = key)
    (hb : Belongs key parts a) :
    let complete := ∀ i < parts.length, i ∈ a.frag.id :: seen
    ((reassemble a.now a.tie a.frag m).1 = if complete then some parts.flatten else none) ∧
    (¬complete → Collects key parts (a.frag.id :: seen) (reassemble a.now a.tie a.frag m).2) := by
  have ⟨ht, hp⟩ := hb hk
  have hc := hc a.now
  have hm : (retain a.now m).get a.frag.key = m.get key := by rw [hk, hs.get_retain]
  simp only [reassemble, hs.makeRoom, hm, ht]
  generalize (m.get key).getD (.new parts.length a.now) = e at hc
  have hf := Reasm.frags_put hc hp
  have hr := Reasm.received_eq_iff hf
  rw [if_neg (by simp [hc])]
  by_cases h : ∀ i < parts.length, i ∈ a.frag.id :: seen
  case pos =>
    rw [if_pos (hr.mpr h), if_pos h, Reasm.join_eq hf h]
    exact ⟨rfl, fun hn => absurd h hn⟩
  case neg =>
    rw [if_neg (h ∘ hr.mp), if_neg h]
    refine ⟨rfl, fun _ now => ?_⟩
    rw [AssocMap.get_insert, if_pos hk.symm, Option.getD_some, hf]

theorem Collects.arrival (hc : Collects key parts seen m) (hs : Spares key m a) (hb : Belongs key parts a)
    (hn : ¬∀ i < parts.length, i ∈ idsOf key [a] ++ seen) :
    Collects key parts (idsOf key [a] ++ seen) (reassemble a.now a.tie a.frag m).2 := by
  by_cases hk : a.frag.key = key
  case pos =>
    have hi : idsOf key [a] = [a.frag.id] := by simp [idsOf, hk]
    rw [hi] at hn ⊢
    exact (reassemble_part hs hc hk hb).2 hn
  case neg =>
    have hi : idsOf key [a] = [] := by simp [idsOf, hk]
    rw [hi, List.nil_append]
    simpa only [Collects, get_reassemble_of_ne hs hk] using hc

theorem idsOf_cons : idsOf key (a :: es) = idsOf key [a] ++ idsOf key es := by
  by_cases hk : a.frag.key = key <;> simp [idsOf, hk]

theorem Collects.arrivals (hc : Collects key parts seen m) (hs : Each step (Spares key) m es)
    (hb : ∀ a ∈ es, Belongs key parts a) (hn : ¬∀ i < parts.length, i ∈ idsOf key es ++ seen)
    (hr : run step m es = some m') : Collects key parts (idsOf key es ++ seen) m' := by
  induction es generalizing m seen
  case nil => exact Option.some.inj hr ▸ hc
  case cons a es hi =>
    have ⟨m₁, hm, hr⟩ := run_cons hr
    have ⟨ha, hs⟩ := hs m₁ hm
    have ⟨hba, hb⟩ := List.forall_mem_cons.mp hb
    have he : ∀ i, i ∈ idsOf key es ++ (idsOf key [a] ++ seen) ↔ i ∈ idsOf key (a :: es) ++ seen := by
      intro i
      have hcons : idsOf key (a :: es) = idsOf key [a] ++ idsOf key es := idsOf_cons
      simp only [hcons, List.mem_append]
      tauto
    cases hm
    have h₁ := hc.arrival ha hba fun h => hn fun i hi =>
      (he i).mp (List.mem_append_right _ (h i hi))
    have h₂ := hi h₁ hs hb (fun h => hn fun i hi => (he i).mp (h i hi)) hr
    intro now
    rw [h₂ now, collected_congr he]

-- As long as a packet has not been completed, the next of its parts completes it or gives nothing. `D`
-- tells which fragments are its parts.
theorem reassemble_run {D : Fragment κ → Prop}
    (hD : ∀ f, D f → f.key = key ∧ f.total = parts.length ∧ parts[f.id]? = some f.data)
    (h₀ : m.get key = none) (ha : D a.frag) (hes : ∀ x ∈ es, x.frag.key = key → D x.frag)
    (hs : Each step (Spares key) m (es ++ [a])) (hr : run step m es = some m')
    (hn : ¬∀ i < parts.length, i ∈ idsOf key es) :
    (reassemble a.now a.tie a.frag m').1 =
      if ∀ i < parts.length, i ∈ a.frag.id :: idsOf key es then some parts.flatten else none := by
  have hc : Collects key parts [] m := by
    intro now
    rw [h₀, collected_nil]
    rfl
  have hb : ∀ x ∈ es, Belongs key parts x := fun x hx hk => (hD _ (hes x hx hk)).2
  have hc := hc.arrivals hs.left hb (by simpa using hn) hr
  rw [List.append_nil] at hc
  exact (reassemble_part (hs.right hr _ rfl).1 hc (hD _ ha).1 fun _ => (hD _ ha).2).1

omit [DecidableEq κ] in
theorem size_retain_le (now : Nat) (m : Pending κ) : (retain now m).size ≤ m.size :=
  AssocMap.size_filter_le m _

theorem size_reassemble_le : (reassemble a.now a.tie a.frag m).2.size ≤ m.size + 1 := by
  have hm : (makeRoom a.tie a.frag.key (retain a.now m)).size ≤ m.size := by
    refine Nat.le_trans ?_ (size_retain_le a.now m)
    simp only [makeRoom]
    split
    case isFalse => exact Nat.le_refl _
    case isTrue  =>
      split
      case h_1 => exact AssocMap.size_filter_le _ _
      case h_2 => exact Nat.le_refl _
  simp only [reassemble]
  generalize makeRoom a.tie a.frag.key (retain a.now m) = m' at hm
  have hi r : (m'.insert a.frag.key r).size ≤ m.size + 1 :=
    (AssocMap.size_insert_le m').trans (Nat.succ_le_succ hm)
  split
  case isTrue  => exact hi _
  case isFalse =>
    split
    case isTrue  => exact ((AssocMap.size_erase_insert_le m').trans hm).trans (Nat.le_succ _)
    case isFalse =>
      exact Nat.succ_le_succ ((AssocMap.size_erase_insert_le m').trans hm)

theorem Reasm.created_put (r : Reasm) (id : Nat) (data : List UInt8) :
    (r.put id data).created = r.created := by
  simp only [put]
  split <;> rfl

theorem created_reassemble {t : Nat} (hm : ∀ k r, m.get k = some r → t ≤ r.created) (ht : t ≤ a.now)
    {k : κ} {r : Reasm} (h : (reassemble a.now a.tie a.frag m).2.get k = some r) : t ≤ r.created := by
  obtain ⟨h, _⟩ | ⟨_, e, he, _, _, rfl⟩ := get_reassemble h
  case inl => exact hm k r h
  case inr =>
    rw [Reasm.created_put]
    obtain rfl | ⟨he, _⟩ := he
    case inl => exact ht
    case inr => exact hm _ e he

-- Nothing is lost within one lifetime, if there is room for all.
theorem each_spares {t : Nat} (hn : m.size + es.length ≤ maxReasm)
    (hm : ∀ k r, m.get k = some r → t ≤ r.created)
    (he : ∀ a ∈ es, t ≤ a.now ∧ a.now < t + reasmTtl) : Each step (Spares key) m es := by
  induction es generalizing m
  case nil => trivial
  case cons a es hi =>
    rw [List.length_cons] at hn
    have ⟨ha, he⟩ := List.forall_mem_cons.mp he
    rintro _ ⟨⟩
    refine ⟨⟨fun r hr => ?_, .inl ?_⟩, hi ?_ (fun k r => created_reassemble hm ha.1) he⟩
    case refine_1 =>
      have := hm key r hr
      omega
    case refine_2 => exact Nat.lt_of_le_of_lt (size_retain_le a.now m) (by omega)
    case refine_3 =>
      have := @size_reassemble_le κ _ m a
      omega

end Run
end JammVpn.Reassembly
