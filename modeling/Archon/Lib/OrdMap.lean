import Mathlib

/-! Ordered finite maps. The carrier is the standard extensional tree map, so
two maps with the same lookups are equal; iteration runs over the entries in
ascending key order. The sums below turn such an iteration into a finite sum
indexed by keys. -/

/-- A finite map iterated in ascending key order. -/
abbrev OrdMap (K V : Type) [Ord K] := Std.ExtTreeMap K V compare

/-- A finite set iterated in ascending order. -/
abbrev OrdSet (K : Type) [Ord K] := OrdMap K Unit

/-- Ascending order of keys. -/
def sortAsc {K : Type} [Ord K] (keys : List K) : List K :=
  keys.insertionSort fun a b => (compare a b).isLE

@[simp] theorem mem_sortAsc {K : Type} [Ord K] {keys : List K} {k : K} :
    k ∈ sortAsc keys ↔ k ∈ keys := by
  simp [sortAsc]

@[simp] theorem nodup_sortAsc {K : Type} [Ord K] {keys : List K} :
    (sortAsc keys).Nodup ↔ keys.Nodup :=
  (List.perm_insertionSort _ keys).nodup_iff

namespace OrdMap
open Std

variable {K V W : Type} [Ord K] [TransOrd K]

/-- The values in ascending key order. -/
def vals (m : OrdMap K V) : List V := m.toList.map Prod.snd

/-- Update the entry at `k`, starting from `fresh` when there is none. -/
def upsert (m : OrdMap K V) (k : K) (fresh : V) (f : V → V) : OrdMap K V :=
  m.alter k fun entry => some (f (entry.getD fresh))

theorem mem_iff {m : OrdMap K V} {k : K} : k ∈ m ↔ ∃ v, m[k]? = some v := by
  rw [ExtTreeMap.mem_iff_isSome_getElem?, Option.isSome_iff_exists]

/-! How a table changes: no entry is lost, each one moves as `move` allows, and
a new entry satisfies `fresh`. -/

structure Evolves (move : K → V → V → Prop) (fresh : K → V → Prop) (m m' : OrdMap K V) : Prop where
  kept : ∀ k v, m[k]? = some v → ∃ v', m'[k]? = some v' ∧ move k v v'
  made : ∀ k v', m[k]? = none → m'[k]? = some v' → fresh k v'

theorem Evolves.moved {move : K → V → V → Prop} {fresh : K → V → Prop} {m m' : OrdMap K V}
    (h : Evolves move fresh m m') {k : K} {v v' : V} (hv : m[k]? = some v)
    (hv' : m'[k]? = some v') : move k v v' := by
  obtain ⟨next, hnext, hmove⟩ := h.kept k v hv
  rw [hv'] at hnext
  cases hnext
  exact hmove

/-- Where an entry of the new table comes from. -/
theorem Evolves.origin {move : K → V → V → Prop} {fresh : K → V → Prop} {m m' : OrdMap K V}
    (h : Evolves move fresh m m') {k : K} {v' : V} (hv : m'[k]? = some v') :
    (∃ v, m[k]? = some v ∧ move k v v') ∨ (m[k]? = none ∧ fresh k v') := by
  cases hk : m[k]? with
  | none => exact .inr ⟨rfl, h.made k v' hk hv⟩
  | some v => exact .inl ⟨v, rfl, h.moved hk hv⟩

theorem Evolves.mono {move move' : K → V → V → Prop} {fresh : K → V → Prop} {m m' : OrdMap K V}
    (h : Evolves move fresh m m')
    (hmono : ∀ k v v', m[k]? = some v → move k v v' → move' k v v') :
    Evolves move' fresh m m' where
  kept k v hv := by
    obtain ⟨next, hnext, hmove⟩ := h.kept k v hv
    exact ⟨next, hnext, hmono k v next hv hmove⟩
  made := h.made

theorem Evolves.refl {move : K → V → V → Prop} {fresh : K → V → Prop} {m : OrdMap K V}
    (hmove : ∀ k v, move k v v) : Evolves move fresh m m where
  kept k v hv := ⟨v, hv, hmove k v⟩
  made k v' hnone hv := by simp [hnone] at hv

theorem Evolves.trans {move : K → V → V → Prop} {fresh : K → V → Prop} {m m' m'' : OrdMap K V}
    (h : Evolves move fresh m m') (h' : Evolves move fresh m' m'')
    (hmove : ∀ k v v' v'', move k v v' → move k v' v'' → move k v v'')
    (hfresh : ∀ k v v', fresh k v → move k v v' → fresh k v') : Evolves move fresh m m'' where
  kept k v hv := by
    obtain ⟨v', hv', hfirst⟩ := h.kept k v hv
    obtain ⟨v'', hv'', hsecond⟩ := h'.kept k v' hv'
    exact ⟨v'', hv'', hmove k v v' v'' hfirst hsecond⟩
  made k v'' hnone hv'' := by
    rcases h'.origin hv'' with ⟨v', hv', hsecond⟩ | ⟨-, hmade⟩
    · exact hfresh k v' v'' (h.made k v' hnone hv') hsecond
    · exact hmade

variable [LawfulEqOrd K]

theorem mem_vals {m : OrdMap K V} {v : V} : v ∈ vals m ↔ ∃ k : K, m[k]? = some v := by
  simp [vals, ExtTreeMap.mem_toList_iff_getElem?_eq_some]

theorem filter_vals_congr {m m' : OrdMap K V} {chosen chosen' : V → Bool}
    (h : ∀ (k : K) (v : V), (m[k]? = some v ∧ chosen v) ↔ (m'[k]? = some v ∧ chosen' v)) :
    (vals m).filter chosen = (vals m').filter chosen' := by
  have hvals : ∀ (m : OrdMap K V) (chosen : V → Bool), (vals m).filter chosen =
      (m.filterMap fun _ v => if chosen v then some v else none).toList.map Prod.snd := by
    intro m chosen
    rw [ExtTreeMap.toList_filterMap, vals]
    induction m.toList with
    | nil => rfl
    | cons entry rest ih =>
      rw [List.map_cons, List.filter_cons, List.filterMap_cons]
      by_cases hchosen : chosen entry.2 <;> simp [hchosen, ih]
  have hsame : m.filterMap (fun _ v => if chosen v then some v else none) =
      m'.filterMap fun _ v => if chosen' v then some v else none := by
    refine ExtTreeMap.ext_getElem? fun k => ?_
    rw [ExtTreeMap.getElem?_filterMap', ExtTreeMap.getElem?_filterMap']
    refine Option.ext fun v => ?_
    simp only [Option.bind_eq_some_iff, Option.ite_none_right_eq_some, Option.some.injEq]
    constructor
    · rintro ⟨found, hfound, hchosen, rfl⟩
      obtain ⟨hfound, hchosen⟩ := (h k found).mp ⟨hfound, hchosen⟩
      exact ⟨found, hfound, hchosen, rfl⟩
    · rintro ⟨found, hfound, hchosen, rfl⟩
      obtain ⟨hfound, hchosen⟩ := (h k found).mpr ⟨hfound, hchosen⟩
      exact ⟨found, hfound, hchosen, rfl⟩
  rw [hvals, hvals, hsame]

theorem get_insert [DecidableEq K] (m : OrdMap K V) (k a : K) (v : V) :
    (m.insert k v)[a]? = if k = a then some v else m[a]? := by
  simp [ExtTreeMap.getElem?_insert]

theorem get_modify [DecidableEq K] (m : OrdMap K V) (k a : K) (f : V → V) :
    (m.modify k f)[a]? = if k = a then m[a]?.map f else m[a]? := by
  rw [ExtTreeMap.getElem?_modify]
  by_cases h : k = a <;> simp [h]

theorem get_erase [DecidableEq K] (m : OrdMap K V) (k a : K) :
    (m.erase k)[a]? = if k = a then none else m[a]? := by
  simp [ExtTreeMap.getElem?_erase]

theorem get_insertIfNew [DecidableEq K] (m : OrdMap K V) (k a : K) (v : V) :
    (m.insertIfNew k v)[a]? = if k = a then some (m[a]?.getD v) else m[a]? := by
  rw [ExtTreeMap.getElem?_insertIfNew]
  by_cases h : k = a
  · subst h
    by_cases hm : k ∈ m <;> simp [hm]
  · simp [h]

theorem get_upsert [DecidableEq K] (m : OrdMap K V) (k a : K) (fresh : V) (f : V → V) :
    (upsert m k fresh f)[a]? = if k = a then some (f (m[k]?.getD fresh)) else m[a]? := by
  rw [upsert, ExtTreeMap.getElem?_alter]
  by_cases h : k = a <;> simp [h]

/-! Writes that change nothing. -/

theorem insert_eq_self {m : OrdMap K V} {k : K} {v : V} (h : m[k]? = some v) : m.insert k v = m := by
  classical
  apply ExtTreeMap.ext_getElem?
  intro a
  rw [get_insert]
  split
  · rename_i hk
    rw [← hk, h]
  · rfl

theorem modify_eq_self {m : OrdMap K V} {k : K} {f : V → V}
    (h : ∀ v, m[k]? = some v → f v = v) : m.modify k f = m := by
  classical
  apply ExtTreeMap.ext_getElem?
  intro a
  rw [get_modify]
  split
  · rename_i hk
    subst hk
    cases hv : m[k]? with
    | none => rfl
    | some v => rw [Option.map_some, h v hv]
  · rfl

theorem upsert_eq_self {m : OrdMap K V} {k : K} {v fresh : V} {f : V → V} (h : m[k]? = some v)
    (hf : f v = v) : upsert m k fresh f = m := by
  classical
  apply ExtTreeMap.ext_getElem?
  intro a
  rw [get_upsert]
  split
  · rename_i hk
    rw [← hk, h, Option.getD_some, hf]
  · rfl

theorem erase_eq_self {m : OrdMap K V} {k : K} (h : m[k]? = none) : m.erase k = m := by
  classical
  apply ExtTreeMap.ext_getElem?
  intro a
  rw [ExtTreeMap.getElem?_erase]
  by_cases hk : k = a
  · subst hk
    simp [h]
  · simp [hk]

theorem insert_erase_self {m : OrdMap K V} {k : K} {v : V} (h : m[k]? = some v) :
    (m.erase k).insert k v = m := by
  classical
  apply ExtTreeMap.ext_getElem?
  intro a
  rw [get_insert, get_erase]
  split
  · rename_i hk
    rw [← hk, h]
  · rfl

theorem erase_insert_self {m : OrdMap K V} {k : K} (h : m[k]? = none) (v : V) :
    (m.insert k v).erase k = m := by
  classical
  apply ExtTreeMap.ext_getElem?
  intro a
  rw [get_erase, get_insert]
  split
  · rename_i hk
    rw [← hk, h]
  · rfl

theorem modify_of_get_none {m : OrdMap K V} {k : K} (h : m[k]? = none) (f : V → V) :
    m.modify k f = m :=
  modify_eq_self fun v hv => by simp [h] at hv

/-- Folding a keyed update over distinct keys leaves at each key the update
applied once, when the update is idempotent. -/
theorem get_foldl_modify [DecidableEq K] (f : V → V) (hf : ∀ v, f (f v) = f v) (keys : List K)
    (m : OrdMap K V) (a : K) :
    (keys.foldl (fun acc k => acc.modify k f) m)[a]? =
      if a ∈ keys then m[a]?.map f else m[a]? := by
  induction keys generalizing m with
  | nil => simp
  | cons k keys ih =>
    rw [List.foldl_cons, ih, get_modify]
    by_cases hk : k = a
    · subst hk
      by_cases hm : k ∈ keys <;> cases hv : m[k]? <;> simp [hm, hf]
    · have hk' : a ≠ k := fun h => hk h.symm
      by_cases hm : a ∈ keys <;> simp [hk, hk', hm]

theorem get_foldl_insert [DecidableEq K] {A : Type} (key : A → K) (v : V) (items : List A)
    (m : OrdMap K V) (a : K) :
    (items.foldl (fun acc item => acc.insert (key item) v) m)[a]? =
      if a ∈ items.map key then some v else m[a]? := by
  induction items generalizing m with
  | nil => simp
  | cons item items ih =>
    rw [List.foldl_cons, ih, get_insert]
    by_cases hmem : a ∈ items.map key
    · simp [hmem]
    · by_cases hk : key item = a
      · simp [hk]
      · have hk' : a ≠ key item := fun h => hk h.symm
        simp [hk, hk', hmem]

/-- Filing items under their keys: each key lists what was there, then its own items. -/
theorem get_foldl_upsert [DecidableEq K] {A B : Type} (key : A → K) (value : A → B) (items : List A)
    (m : OrdMap K (List B)) (k : K) :
    (items.foldl (fun index item => upsert index (key item) [] (· ++ [value item])) m)[k]?.getD [] =
      m[k]?.getD [] ++ (items.filter fun item => key item = k).map value := by
  induction items generalizing m with
  | nil => simp
  | cons item items ih =>
    rw [List.foldl_cons, ih, get_upsert]
    by_cases hk : key item = k
    · subst hk
      simp
    · simp [hk]

theorem mem_foldl_upsert [DecidableEq K] {A B : Type} (key : A → K) (value : A → B) (items : List A)
    (m : OrdMap K (List B)) (k : K) (b : B) :
    b ∈ (items.foldl (fun index item => upsert index (key item) [] (· ++ [value item])) m)[k]?.getD [] ↔
      b ∈ m[k]?.getD [] ∨ ∃ item ∈ items, key item = k ∧ value item = b := by
  rw [get_foldl_upsert]
  simp [and_assoc]

theorem isSome_foldl_upsert [DecidableEq K] {A : Type} (key : A → K) (fresh : V) (f : A → V → V)
    (items : List A) (m : OrdMap K V) (k : K) :
    (items.foldl (fun m item => upsert m (key item) fresh (f item)) m)[k]?.isSome ↔
      m[k]?.isSome ∨ ∃ item ∈ items, key item = k := by
  induction items generalizing m with
  | nil => simp
  | cons item items ih =>
    rw [List.foldl_cons, ih, get_upsert]
    by_cases hk : key item = k
    · simp [hk]
    · simp [hk]

theorem getD_map_sortAsc {B : Type} [Ord B] (m : OrdMap K (List B)) (k : K) :
    (m.map fun _ items => sortAsc items)[k]?.getD [] = sortAsc (m[k]?.getD []) := by
  rw [ExtTreeMap.getElem?_map]
  cases m[k]? <;> rfl

/-- A fold that reacts to one key reads at most the entry stored there. -/
theorem foldl_toList_single [DecidableEq K] {A : Type} (m : OrdMap K V) (k : K)
    (react : A → V → A) (start : A) :
    m.toList.foldl (fun acc p => if p.1 = k then react acc p.2 else acc) start =
      (m[k]?.map (react start)).getD start := by
  have hskip : ∀ (entries : List (K × V)) (acc : A), k ∉ entries.map Prod.fst →
      entries.foldl (fun acc p => if p.1 = k then react acc p.2 else acc) acc = acc := by
    intro entries
    induction entries with
    | nil => intro acc _; rfl
    | cons p entries ih =>
      intro acc hk
      simp only [List.map_cons, List.mem_cons, not_or] at hk
      rw [List.foldl_cons, if_neg (fun h => hk.1 h.symm), ih acc hk.2]
  have hfind : ∀ (entries : List (K × V)) (v : V), (entries.map Prod.fst).Nodup →
      (k, v) ∈ entries →
      entries.foldl (fun acc p => if p.1 = k then react acc p.2 else acc) start = react start v := by
    intro entries v
    induction entries with
    | nil => intro _ hm; simp at hm
    | cons p entries ih =>
      intro hnodup hm
      simp only [List.map_cons, List.nodup_cons] at hnodup
      rw [List.foldl_cons]
      by_cases hp : p.1 = k
      · have hv : p.2 = v := by
          rcases List.mem_cons.mp hm with rfl | hm
          · rfl
          · exact absurd (List.mem_map.mpr ⟨(k, v), hm, hp.symm⟩) hnodup.1
        rw [if_pos hp, hskip _ _ (hp ▸ hnodup.1), hv]
      · rcases List.mem_cons.mp hm with rfl | hm
        · exact absurd rfl hp
        · rw [if_neg hp, ih hnodup.2 hm]
  cases hv : m[k]? with
  | none =>
    apply hskip
    rw [ExtTreeMap.map_fst_toList_eq_keys, ExtTreeMap.mem_keys, mem_iff]
    simp [hv]
  | some v =>
    apply hfind
    · rw [ExtTreeMap.map_fst_toList_eq_keys]
      exact ExtTreeMap.nodup_keys
    · exact ExtTreeMap.mem_toList_iff_getElem?_eq_some.mpr hv

section Evolution
variable {move : K → V → V → Prop} {fresh : K → V → Prop} {m m' : OrdMap K V}

theorem Evolves.insert [DecidableEq K] {k : K} {v : V} (hmove : ∀ k v, move k v v)
    (hnone : m[k]? = none) (hfresh : fresh k v) : Evolves move fresh m (m.insert k v) where
  kept a w hw := by
    have hne : k ≠ a := fun h => by simp [← h, hnone] at hw
    exact ⟨w, by rw [get_insert, if_neg hne, hw], hmove a w⟩
  made a w hnone hw := by
    rw [get_insert] at hw
    split at hw
    · rename_i hka
      cases hw
      exact hka ▸ hfresh
    · simp [hnone] at hw

theorem Evolves.modify [DecidableEq K] {k : K} {f : V → V} (hmove : ∀ k v, move k v v)
    (hf : ∀ v, m[k]? = some v → move k v (f v)) : Evolves move fresh m (m.modify k f) where
  kept a w hw := by
    rw [get_modify]
    split
    · rename_i hka
      subst hka
      exact ⟨f w, by simp [hw], hf w hw⟩
    · exact ⟨w, hw, hmove a w⟩
  made a w hnone hw := by
    rw [get_modify] at hw
    split at hw <;> simp [hnone] at hw

theorem Evolves.upsert [DecidableEq K] {k : K} {v : V} {f : V → V} (hmove : ∀ k v, move k v v)
    (hf : ∀ w, move k w (f w)) (hfresh : fresh k (f v)) :
    Evolves move fresh m (OrdMap.upsert m k v f) where
  kept a w hw := by
    rw [get_upsert]
    split
    · rename_i hka
      subst hka
      exact ⟨f w, by simp [hw], hf w⟩
    · exact ⟨w, hw, hmove a w⟩
  made a w hnone hw := by
    rw [get_upsert] at hw
    split at hw
    · rename_i hka
      subst hka
      simp only [hnone, Option.getD_none, Option.some.injEq] at hw
      exact hw ▸ hfresh
    · simp [hnone] at hw

end Evolution

/-! Iterated sums as finite sums over keys. -/

section Sums
variable [DecidableEq K] {M : Type} [AddCommMonoid M]

/-- The keys as a finite set. -/
def keySet (m : OrdMap K V) : Finset K := m.keys.toFinset

@[simp] theorem mem_keySet {m : OrdMap K V} {k : K} : k ∈ keySet m ↔ ∃ v, m[k]? = some v := by
  rw [keySet, List.mem_toFinset, ExtTreeMap.mem_keys, mem_iff]

theorem keySet_insert (m : OrdMap K V) (k : K) (v : V) :
    keySet (m.insert k v) = insert k (keySet m) := by
  ext a
  simp only [mem_keySet, Finset.mem_insert, get_insert]
  by_cases h : k = a
  · simp [h]
  · have h' : a ≠ k := fun e => h e.symm
    simp [h, h']

omit [LawfulEqOrd K] in
theorem size_eq_card (m : OrdMap K V) : m.size = (keySet m).card := by
  have hnodup : m.keys.Nodup := ExtTreeMap.nodup_keys
  rw [keySet, List.toFinset_card_of_nodup hnodup, ExtTreeMap.length_keys]

theorem Evolves.keySet_subset {move : K → V → V → Prop} {fresh : K → V → Prop} {m m' : OrdMap K V}
    (h : Evolves move fresh m m') : keySet m ⊆ keySet m' := by
  intro k hk
  obtain ⟨v, hv⟩ := mem_keySet.mp hk
  obtain ⟨v', hv', _⟩ := h.kept k v hv
  exact mem_keySet.mpr ⟨v', hv'⟩

theorem Evolves.size_le {move : K → V → V → Prop} {fresh : K → V → Prop} {m m' : OrdMap K V}
    (h : Evolves move fresh m m') : m.size ≤ m'.size := by
  rw [size_eq_card, size_eq_card]
  exact Finset.card_le_card h.keySet_subset

theorem Evolves.size_lt {move : K → V → V → Prop} {fresh : K → V → Prop} {m m' : OrdMap K V}
    (h : Evolves move fresh m m') {k : K} {v' : V} (hnone : m[k]? = none) (hv : m'[k]? = some v') :
    m.size < m'.size := by
  rw [size_eq_card, size_eq_card]
  apply Finset.card_lt_card
  refine Finset.ssubset_iff_subset_ne.mpr ⟨h.keySet_subset, fun heq => ?_⟩
  have hmem : k ∈ keySet m := heq ▸ mem_keySet.mpr ⟨v', hv⟩
  simp [hnone] at hmem

theorem sum_toList (m : OrdMap K V) (f : K → V → M) :
    (m.toList.map fun p => f p.1 p.2).sum = ∑ k ∈ keySet m, (m[k]?.map (f k)).getD 0 := by
  have hval : m.toList.map (fun p => f p.1 p.2) =
      m.toList.map ((fun k => (m[k]?.map (f k)).getD 0) ∘ Prod.fst) := by
    apply List.map_congr_left
    rintro ⟨k, v⟩ hp
    have hk : m[k]? = some v := ExtTreeMap.mem_toList_iff_getElem?_eq_some.mp hp
    simp [hk]
  have hnodup : m.keys.Nodup := ExtTreeMap.nodup_keys
  rw [hval, ← List.map_map, ExtTreeMap.map_fst_toList_eq_keys, keySet,
    List.sum_toFinset _ hnodup]

theorem sum_vals (m : OrdMap K V) (f : V → M) :
    ((vals m).map f).sum = ∑ k ∈ keySet m, (m[k]?.map f).getD 0 := by
  rw [vals, List.map_map]
  exact sum_toList m fun _ => f

/-- A sum over selected values, indexed by the keys that hold them. -/
theorem sum_filter_vals (m : OrdMap K V) (select : V → Bool) (f : V → M) :
    (((vals m).filter select).map f).sum =
      ∑ k ∈ keySet m with m[k]?.any select, (m[k]?.map f).getD 0 := by
  have hlist : ∀ values : List V, ((values.filter select).map f).sum =
      (values.map fun v => if select v then f v else 0).sum := by
    intro values
    induction values with
    | nil => rfl
    | cons v values ih =>
      rw [List.filter_cons, List.map_cons, List.sum_cons]
      split
      · rw [List.map_cons, List.sum_cons, ih]
      · rw [ih, zero_add]
  rw [hlist, sum_vals, Finset.sum_filter]
  refine Finset.sum_congr rfl fun k hk => ?_
  obtain ⟨v, hv⟩ := mem_keySet.mp hk
  simp only [hv, Option.map_some, Option.getD_some, Option.any_some]

end Sums
end OrdMap
