import Mathlib.Data.List.MinMax
import JammVpn.Lib.Machine
import JammVpn.Net.ReassemblyTable

namespace JammVpn.Reassembly

open Machine

-- An entry without its proof.
def Reasm.slots (r : Reasm) : Slots where
  frags := r.frags
  received := r.received
  created := r.created

def Pending.table {κ : Type} (m : Pending κ) : Table κ :=
  m.mapValues Reasm.slots

section Refinement

variable {κ : Type} [DecidableEq κ] {now tie : Nat} {f : Fragment κ} {m : Pending κ} {key : κ}

omit [DecidableEq κ] in
theorem retain_table : Table.retain now m.table = (retain now m).table :=
  m.filter_mapValues _ _

omit [DecidableEq κ] in
theorem oldest_table : Table.oldest tie m.table = oldest tie m := by
  simp only [Table.oldest, oldest, Pending.table, AssocMap.mapValues, List.filter_map, List.all_map, List.length_map,
    List.getElem?_map, Option.map_map, Function.comp_def, Reasm.slots]

theorem get_table : m.table.get key = (m.get key).map Reasm.slots :=
  m.get_mapValues _

theorem insert_table (r : Reasm) : m.table.insert key r.slots = Pending.table (m.insert key r) :=
  m.insert_mapValues _

theorem erase_table : m.table.erase key = Pending.table (m.erase key) :=
  m.erase_mapValues _

theorem makeRoom_table : Table.makeRoom tie key m.table = (makeRoom tie key m).table := by
  have hsize : m.table.size = m.size := m.size_mapValues _
  simp only [Table.makeRoom, makeRoom, hsize, get_table, Option.map_eq_none_iff, oldest_table]
  split
  case isFalse => rfl
  case isTrue =>
    cases oldest tie m
    case none   => rfl
    case some k => exact erase_table

theorem mapM_id {l : List (Option (List UInt8))} (h : ∀ x ∈ l, x.isSome = true) :
    l.mapM id = some (l.map (·.getD [])) := by
  induction l
  case nil => rfl
  case cons x l hi =>
    obtain ⟨hx, hl⟩ := List.forall_mem_cons.mp h
    obtain ⟨d, rfl⟩ := Option.isSome_iff_exists.mp hx
    rw [List.mapM_cons, hi hl]
    rfl

-- If as many fragments have arrived as there are slots, no slot is empty.
theorem Reasm.join_slots {r : Reasm} (h : r.received = r.frags.length) : r.slots.join = some r.join := by
  have hall := List.countP_eq_length.mp (r.counted.trans h)
  have hparts : r.slots.frags.mapM id = some (r.frags.map (·.getD [])) := mapM_id hall
  rw [Slots.join, hparts]
  rfl

theorem Reasm.put_slots {r : Reasm} {id : Nat} (h : id < r.frags.length) (data : List UInt8) :
    r.slots.put id data = some (r.put id data).slots := by
  have hget : r.slots.frags[id]? = some r.frags[id] := List.getElem?_eq_getElem h
  rw [Slots.put, hget, Reasm.put]
  cases hx : r.frags[id]
  case none =>
    rw [dif_pos (by rw [List.getElem?_eq_getElem h, hx])]
    rfl
  case some d =>
    rw [dif_neg (by rw [List.getElem?_eq_getElem h, hx]; simp)]
    rfl

theorem Reasm.received_put_pos {r : Reasm} {id : Nat} (h : id < r.frags.length) (data : List UInt8) :
    0 < (r.put id data).received := by
  rw [← (r.put id data).counted, List.countP_pos_iff, put]
  split
  case isTrue  => exact ⟨some data, List.mem_set h _, rfl⟩
  case isFalse hn =>
    refine ⟨r.frags[id], List.getElem_mem h, ?_⟩
    rw [List.getElem?_eq_getElem h] at hn
    exact Option.isSome_iff_ne_none.mpr fun he => hn (congrArg some he)

theorem Reasm.length_put (r : Reasm) (id : Nat) (data : List UInt8) :
    (r.put id data).frags.length = r.frags.length := by
  rw [put]
  split
  case isTrue  => exact List.length_set
  case isFalse => rfl

-- None of the checks fails.
theorem reassemble_table (now tie : Nat) (f : Fragment κ) (m : Pending κ) :
    Table.reassemble now tie f m.table =
      some ((reassemble now tie f m).1, Pending.table (reassemble now tie f m).2) := by
  rw [Table.reassemble, retain_table, makeRoom_table, reassemble]
  generalize makeRoom tie f.key (retain now m) = m'
  have hentry : (m'.table.get f.key).getD (.new f.total now) =
      Reasm.slots ((m'.get f.key).getD (.new f.total now)) := by
    rw [get_table]
    cases m'.get f.key <;> rfl
  dsimp only
  rw [hentry]
  generalize (m'.get f.key).getD (.new f.total now) = e
  rw [insert_table]
  by_cases hl : e.frags.length = f.total
  case neg =>
    have hl' : e.slots.frags.length ≠ f.total := hl
    rw [if_pos hl', if_pos hl]
  case pos =>
    have hl' : ¬e.slots.frags.length ≠ f.total := not_not.mpr hl
    rw [if_neg hl', if_neg (not_not.mpr hl), Reasm.put_slots (hl ▸ f.valid)]
    have hlen := e.length_put f.id f.data
    generalize e.put f.id f.data = e' at hlen
    dsimp only [Option.bind_eq_bind, Option.bind_some]
    rw [insert_table]
    by_cases hr : e'.received = f.total
    case neg =>
      have hr' : e'.slots.received ≠ f.total := hr
      rw [if_neg hr', if_neg hr]
    case pos =>
      have hr' : e'.slots.received = f.total := hr
      have hjoin : e'.slots.join = some e'.join := Reasm.join_slots (hr.trans (hl.symm.trans hlen.symm))
      rw [if_pos hr', if_pos hr, get_table, AssocMap.get_insert_self, Option.map_some]
      dsimp only [Option.bind_eq_bind, Option.bind_some]
      rw [hjoin, Option.bind_some, erase_table, AssocMap.erase_insert]

end Refinement

-- A packet of which some fragments have arrived, and some have not.
structure Slots.Partial (s : Slots) : Prop where
  counted : s.frags.countP Option.isSome = s.received
  started : 1 ≤ s.received
  missing : s.received ≤ s.frags.length - 1
  least   : 2 ≤ s.frags.length
  most    : s.frags.length ≤ 255

namespace Table

section

variable {κ : Type} [DecidableEq κ]

structure Bounded (m : Table κ) : Prop where
  entries : ∀ k s, m.get k = some s → s.Partial
  size    : m.size ≤ maxReasm

def Oldest (m : Table κ) (k : κ) : Prop :=
  ∃ s, m.get k = some s ∧ ∀ k' s', m.get k' = some s' → s.created ≤ s'.created

-- The other entries are the same, but for those that have expired, and one of the oldest of those that have not.
def Spares (now : Nat) (key : κ) (m m' : Table κ) : Prop :=
  ∃ victim : Option κ, (∀ k, victim = some k → Oldest (retain now m) k) ∧
    ∀ k, k ≠ key → m'.get k = if victim = some k then none else (retain now m).get k

variable {now tie : Nat} {f : Fragment κ} {m : Table κ} {key k : κ}

theorem oldest_eq_some (h : oldest tie m = some k) : Oldest m k := by
  obtain ⟨e, he, rfl⟩ := Option.map_eq_some_iff.mp h
  obtain ⟨hmem, hall⟩ := List.mem_filter.mp (List.mem_of_getElem? he)
  refine ⟨e.2, m.get_eq_some_iff.mpr hmem, ?_⟩
  intro k' s' hs
  exact of_decide_eq_true (List.all_eq_true.mp hall _ (m.get_eq_some_iff.mp hs))

omit [DecidableEq κ] in
theorem oldest_ne_none (h : 0 < m.size) : oldest tie m ≠ none := by
  cases he : m.entries.argmin (·.2.created)
  case none => exact absurd (List.argmin_eq_none.mp he) (List.ne_nil_of_length_pos h)
  case some e =>
    have hmem : e ∈ m.entries.filter fun e => m.entries.all fun e' => e.2.created ≤ e'.2.created := by
      have hle : ∀ e' ∈ m.entries, e.2.created ≤ e'.2.created :=
        fun e' he' => List.le_of_mem_argmin (f := fun e => e.2.created) he' he
      refine List.mem_filter.mpr ⟨List.argmin_mem he, List.all_eq_true.mpr ?_⟩
      exact fun e' he' => decide_eq_true (hle e' he')
    have hlt := Nat.mod_lt tie (List.length_pos_of_mem hmem)
    simp [oldest, List.getElem?_eq_getElem hlt]

theorem makeRoom_cases (tie : Nat) (key : κ) (m : Table κ) :
    makeRoom tie key m = m ∨ ∃ k, Oldest m k ∧ makeRoom tie key m = m.erase k := by
  rw [makeRoom]
  split
  case isFalse => exact .inl rfl
  case isTrue =>
    cases h : oldest tie m
    case none   => exact .inl rfl
    case some k => exact .inr ⟨k, oldest_eq_some h, rfl⟩

theorem spares_makeRoom (now tie : Nat) (key : κ) (m : Table κ) :
    Spares now key m (makeRoom tie key (retain now m)) := by
  obtain h | ⟨k, hk, h⟩ := makeRoom_cases tie key (retain now m)
  case inl => exact ⟨none, nofun, fun k _ => by rw [h]; rfl⟩
  case inr =>
    refine ⟨some k, ?_, ?_⟩
    case refine_1 =>
      rintro _ ⟨⟩
      exact hk
    case refine_2 =>
      intro k' _
      rw [h, AssocMap.get_erase]
      simp only [Option.some.injEq, eq_comm]

-- There is room for the entry of a packet, if it has none yet.
theorem size_makeRoom (h : m.size ≤ maxReasm) (tie : Nat) (key : κ) :
    (makeRoom tie key m).size ≤ maxReasm ∧
      ((makeRoom tie key m).get key = none → (makeRoom tie key m).size < maxReasm) := by
  rw [makeRoom]
  split
  case isFalse hn =>
    refine ⟨h, fun hk => ?_⟩
    have := not_and.mp hn
    exact Nat.lt_of_not_le fun hs => this hs hk
  case isTrue hn =>
    cases ho : oldest tie m
    case none => exact absurd ho (oldest_ne_none (Nat.lt_of_lt_of_le (by decide) hn.1))
    case some k =>
      obtain ⟨s, hs, _⟩ := oldest_eq_some ho
      have := m.size_erase_lt (hs ▸ Option.some_ne_none s)
      exact ⟨by dsimp only; omega, fun _ => by dsimp only; omega⟩

end

end Table

section Bounded

variable {κ : Type} [DecidableEq κ] {now tie : Nat} {f : Fragment κ} {m : Pending κ} {k : κ}

omit [DecidableEq κ] in
theorem Reasm.put_partial {e : Reasm} (hl : e.frags.length = f.total) (hr : (e.put f.id f.data).received ≠ f.total)
    (hf : f.total ≤ 255) : (e.put f.id f.data).slots.Partial := by
  have hpos := Reasm.received_put_pos (hl ▸ f.valid) f.data
  have hlen := e.length_put f.id f.data
  have hle : (e.put f.id f.data).received ≤ (e.put f.id f.data).frags.length :=
    (e.put f.id f.data).counted ▸ List.countP_le_length
  generalize e.put f.id f.data = e' at hpos hlen hle hr
  constructor
  case counted => exact e'.counted
  case started => exact hpos
  case missing => exact Nat.le_sub_one_of_lt (Nat.lt_of_le_of_ne hle (hlen ▸ hl ▸ hr))
  case least   => have : e'.slots.frags.length = f.total := hlen.trans hl; omega
  case most    => exact (hlen.trans hl).trans_le hf

theorem size_insert {key : κ} (h : m.size ≤ maxReasm) (hk : m.get key = none → m.size < maxReasm) (r : Reasm) :
    (m.insert key r).size ≤ maxReasm := by
  by_cases hn : m.get key = none
  case pos => exact (m.size_insert_le).trans (hk hn)
  case neg => exact (m.size_insert_le_of_mem hn).trans h

theorem size_reassemble (h : m.size ≤ maxReasm) : (reassemble now tie f m).2.size ≤ maxReasm := by
  have hretain : (retain now m).table.size ≤ maxReasm :=
    ((retain now m).size_mapValues _).trans_le ((size_retain_le now m).trans h)
  have hroom := Table.size_makeRoom hretain tie f.key
  rw [makeRoom_table, get_table, Option.map_eq_none_iff, Pending.table, AssocMap.size_mapValues] at hroom
  simp only [reassemble]
  generalize makeRoom tie f.key (retain now m) = m' at hroom
  have hins := size_insert hroom.1 hroom.2
  split
  case isTrue  => exact hins _
  case isFalse =>
    split
    case isTrue  => exact ((m'.insert f.key _).size_filter_le _).trans (hins _)
    case isFalse =>
      have hmem : ∀ r, (m'.insert f.key r).get f.key ≠ none := fun r => by
        rw [AssocMap.get_insert_self]
        exact Option.some_ne_none r
      exact ((m'.insert f.key _).size_insert_le_of_mem (hmem _)).trans (hins _)

theorem bounded_reassemble (h : m.table.Bounded) (hf : f.total ≤ 255) (now tie : Nat) :
    (reassemble now tie f m).2.table.Bounded where
  size := (AssocMap.size_mapValues _ _).trans_le (size_reassemble ((m.size_mapValues _).symm.trans_le h.size))
  entries k s hs := by
    rw [get_table] at hs
    obtain ⟨r, hr, rfl⟩ := Option.map_eq_some_iff.mp hs
    obtain ⟨hold, _⟩ | ⟨_, e, _, hl, hn, rfl⟩ := get_reassemble hr
    case inl => exact h.entries k _ (by rw [get_table, hold]; rfl)
    case inr => exact Reasm.put_partial hl hn hf

theorem spares_reassemble (now tie : Nat) (f : Fragment κ) (m : Pending κ) :
    Table.Spares now f.key m.table (reassemble now tie f m).2.table := by
  obtain ⟨victim, hold, hget⟩ := Table.spares_makeRoom now tie f.key m.table
  refine ⟨victim, hold, fun k hk => ?_⟩
  rw [← hget k hk, get_table, get_reassemble_ne hk, ← get_table, ← makeRoom_table, retain_table]

end Bounded

section Receive

variable {κ : Type} [DecidableEq κ] {decode : List UInt8 → Option (Fragment κ)} {t : Table κ}

namespace Table

def Sound (t : Table κ) : Prop :=
  ∃ m : Pending κ, m.table = t ∧ t.Bounded

-- Whatever has arrived, the next datagram does not fail, and only changes the entry of its packet.
def Robust (decode : List UInt8 → Option (Fragment κ)) : Prop :=
  ∀ xs, ∃ t, run (step decode) .empty xs = some t ∧ t.Bounded ∧
    ∀ x, ∃ out t', receive decode t x = some (out, t') ∧ t'.Bounded ∧
      ∀ f, decode x.bytes = some f → 1 < f.total → Spares x.now f.key t t'

end Table

theorem sound_empty : Table.Sound (.empty : Table κ) :=
  ⟨.empty, rfl, ⟨nofun, Nat.zero_le _⟩⟩

-- A datagram either belongs to the table, or leaves it as it is.
theorem receive_sound (hd : ∀ bs f, decode bs = some f → f.total ≤ 255) (h : t.Sound) (x : Table.Datagram) :
    ∃ out t', Table.receive decode t x = some (out, t') ∧ t'.Sound ∧
      ∀ f, decode x.bytes = some f → 1 < f.total → Table.Spares x.now f.key t t' := by
  cases hx : decode x.bytes
  case none => exact ⟨none, t, by rw [Table.receive, hx], h, nofun⟩
  case some f =>
    by_cases hf : f.total ≤ 1
    case pos =>
      refine ⟨some f.data, t, by rw [Table.receive, hx]; exact if_pos hf, h, ?_⟩
      rintro _ ⟨⟩ hlt
      exact absurd hf (Nat.not_le_of_lt hlt)
    case neg =>
      obtain ⟨m, rfl, hm⟩ := h
      have hcall : Table.receive decode m.table x =
          some ((reassemble x.now x.tie f m).1, (reassemble x.now x.tie f m).2.table) := by
        rw [Table.receive, hx]
        exact (if_neg hf).trans (reassemble_table x.now x.tie f m)
      refine ⟨_, _, hcall, ⟨_, rfl, bounded_reassemble hm (hd _ f hx) x.now x.tie⟩, ?_⟩
      rintro _ ⟨⟩ _
      exact spares_reassemble x.now x.tie f m

theorem robust (hd : ∀ bs f, decode bs = some f → f.total ≤ 255) : Table.Robust decode := by
  intro xs
  have hstep : ∀ t x, t.Sound → ∃ t', Table.step decode t x = some t' ∧ t'.Sound := by
    intro t x h
    obtain ⟨out, t', hr, ht, _⟩ := receive_sound hd h x
    exact ⟨t', by rw [Table.step, hr]; rfl, ht⟩
  obtain ⟨t, hrun, ht⟩ := exists_run_of_keeps hstep sound_empty xs
  refine ⟨t, hrun, ?_, fun x => ?_⟩
  case refine_1 =>
    obtain ⟨_, _, hb⟩ := ht
    exact hb
  case refine_2 =>
    obtain ⟨out, t', hr, ⟨_, _, hb⟩, hs⟩ := receive_sound hd ht x
    exact ⟨out, t', hr, hb, hs⟩

theorem total_tuic {bs : List UInt8} {f : Fragment (UInt16 × UInt16)} (h : Tuic.fragmentOf bs = some f) :
    f.total ≤ 255 := by
  obtain ⟨⟨head, frag⟩, _, rfl⟩ := Option.map_eq_some_iff.mp h
  exact Nat.le_of_lt_succ head.fragTotal.toNat_lt

theorem total_hysteria2 {bs : List UInt8} {f : Fragment (UInt32 × UInt16)} (h : Hysteria2.fragmentOf bs = some f) :
    f.total ≤ 255 := by
  obtain ⟨⟨head, frag⟩, _, rfl⟩ := Option.map_eq_some_iff.mp h
  exact Nat.le_of_lt_succ head.fragTotal.toNat_lt

theorem tables_robust : Table.Robust Tuic.fragmentOf ∧ Table.Robust Hysteria2.fragmentOf :=
  ⟨robust fun _ _ => total_tuic, robust fun _ _ => total_hysteria2⟩

end Receive
end JammVpn.Reassembly
