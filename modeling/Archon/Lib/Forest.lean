import Mathlib

/-! Walks over a forest given by pointers. A program follows them without a
bound; here each walk carries a fuel, and the lemmas say when the fuel is enough
for the walk to satisfy the unbounded recursion. -/
namespace Forest
variable {K : Type}

/-- Proper ancestors, nearest first, along at most `fuel` parent pointers. -/
def climb (up : K → Option K) : Nat → K → List K
  | 0, _ => []
  | fuel + 1, k =>
    match up k with
    | none => []
    | some p => p :: climb up fuel p

/-- The chain of parents above `k` ends within `fuel` pointers. -/
def Ends (up : K → Option K) : Nat → K → Prop
  | 0, k => up k = none
  | fuel + 1, k => ∀ p, up k = some p → Ends up fuel p

theorem climb_stable {up : K → Option K} {fuel : Nat} {k : K} (h : Ends up fuel k) :
    climb up (fuel + 1) k = climb up fuel k := by
  induction fuel generalizing k with
  | zero =>
    have hnone : up k = none := h
    simp [climb, hnone]
  | succ fuel ih =>
    rw [climb, climb]
    cases hup : up k with
    | none => rfl
    | some p =>
      simp only
      rw [ih (h p hup)]

/-- Where every chain ends in time, the climb is the unbounded one. -/
theorem climb_eq {up : K → Option K} {fuel : Nat} (h : ∀ k, Ends up fuel k) (k : K) :
    climb up fuel k = (up k).elim [] fun p => p :: climb up fuel p := by
  cases fuel with
  | zero =>
    have hnone : up k = none := h k
    simp [climb, hnone]
  | succ fuel =>
    rw [climb]
    cases hup : up k with
    | none => rfl
    | some p =>
      simp only [Option.elim_some]
      rw [climb_stable (h k p hup)]

theorem mem_climb_iff {up : K → Option K} {fuel : Nat} (h : ∀ k, Ends up fuel k) {a k : K} :
    a ∈ climb up fuel k ↔ Relation.TransGen (fun p child => up child = some p) a k := by
  constructor
  · have hclimb : ∀ bound k, a ∈ climb up bound k →
        Relation.TransGen (fun p child => up child = some p) a k := by
      intro bound
      induction bound with
      | zero => simp [climb]
      | succ bound ih =>
        intro k hmem
        rw [climb] at hmem
        split at hmem
        · simp at hmem
        · rename_i p hup
          rcases List.mem_cons.mp hmem with rfl | hmem
          · exact .single hup
          · exact .tail (ih p hmem) hup
    exact hclimb fuel k
  · intro hbelow
    induction hbelow with
    | single hup =>
      rw [climb_eq h, hup]
      exact List.mem_cons_self
    | tail _ hup ih =>
      rw [climb_eq h, hup]
      exact List.mem_cons_of_mem _ ih

theorem length_climb {up : K → Option K} {fuel : Nat} (h : ∀ k, Ends up fuel k) {p k : K}
    (hup : up k = some p) : (climb up fuel k).length = (climb up fuel p).length + 1 := by
  rw [climb_eq h, hup]
  rfl

theorem length_climb_le (up : K → Option K) (fuel : Nat) (k : K) : (climb up fuel k).length ≤ fuel := by
  induction fuel generalizing k with
  | zero => simp [climb]
  | succ fuel ih =>
    rw [climb]
    split
    · simp
    · rename_i p _
      have := ih p
      simp only [List.length_cons]
      omega

theorem not_above_self {up : K → Option K} {fuel : Nat} (h : ∀ k, Ends up fuel k) (k : K) :
    ¬Relation.TransGen (fun p child => up child = some p) k k := by
  have hlt : ∀ a b, Relation.TransGen (fun p child => up child = some p) a b →
      (climb up fuel a).length < (climb up fuel b).length := by
    intro a b hbelow
    induction hbelow with
    | single hup =>
      have := length_climb h hup
      omega
    | tail _ hup ih =>
      have := length_climb h hup
      omega
  exact fun hself => lt_irrefl _ (hlt k k hself)

theorem nodup_climb {up : K → Option K} {fuel : Nat} (h : ∀ k, Ends up fuel k) (k : K) :
    (climb up fuel k).Nodup := by
  -- the ancestors of a node are one fewer than those of its child
  induction hlength : (climb up fuel k).length generalizing k with
  | zero =>
    rw [List.length_eq_zero_iff.mp hlength]
    exact List.nodup_nil
  | succ length ih =>
    cases hup : up k with
    | none =>
      rw [climb_eq h, hup] at hlength
      cases hlength
    | some p =>
      have hparent := length_climb h hup
      rw [climb_eq h, hup]
      refine List.nodup_cons.mpr ⟨fun hmem => ?_, ih p (by omega)⟩
      exact not_above_self h p ((mem_climb_iff h).mp hmem)

/-- The climb as a loop: at most `fuel` rounds of it, and `none` if it has not
ended by then. -/
def climbing (up : K → Option K) : Nat → Option K → List K → Option (List K)
  | 0, _, _ => none
  | _ + 1, none, out => some out
  | fuel + 1, some k, out => climbing up fuel (up k) (out ++ [k])

theorem climbing_eq {up : K → Option K} {bound : Nat} (h : ∀ k, Ends up bound k) {fuel : Nat} {k : K}
    (hfuel : (climb up bound k).length < fuel) (out : List K) :
    climbing up fuel (up k) out = some (out ++ climb up bound k) := by
  induction fuel generalizing k out with
  | zero => omega
  | succ fuel ih =>
    rw [climb_eq h] at hfuel ⊢
    cases hup : up k with
    | none => simp [climbing]
    | some p =>
      rw [hup] at hfuel
      simp only [Option.elim_some, List.length_cons] at hfuel
      rw [climbing, ih (by omega)]
      simp

/-- Proper descendants, every child after its own descendants, to depth `fuel`. -/
def walk (kids : K → List K) : Nat → K → List K
  | 0, _ => []
  | fuel + 1, k => (kids k).flatMap fun child => walk kids fuel child ++ [child]

/-- Proper descendants in the order a stack of siblings yields them: the last
child first, each before its own descendants, to depth `fuel`. -/
def preorder (kids : K → List K) : Nat → K → List K
  | 0, _ => []
  | fuel + 1, k => (kids k).reverse.flatMap fun child => child :: preorder kids fuel child

/-- `Below kids top k`: `k` is a proper descendant of `top`. -/
def Below (kids : K → List K) : K → K → Prop := Relation.TransGen fun parent child => child ∈ kids parent

/-- Every child ranks above its parent and below `bound`. -/
def Ranked (kids : K → List K) (rank : K → Nat) (bound : Nat) : Prop :=
  ∀ parent child, child ∈ kids parent → rank parent < rank child ∧ rank child < bound

theorem below_of_mem_walk {kids : K → List K} {fuel : Nat} {top k : K}
    (h : k ∈ walk kids fuel top) : Below kids top k := by
  induction fuel generalizing top with
  | zero => simp [walk] at h
  | succ fuel ih =>
    simp only [walk, List.mem_flatMap, List.mem_append, List.mem_singleton] at h
    obtain ⟨child, hchild, hk | rfl⟩ := h
    · exact .head hchild (ih hk)
    · exact .single hchild

theorem mem_walk_of_below {kids : K → List K} {rank : K → Nat} {bound fuel : Nat} {top k : K}
    (hrank : Ranked kids rank bound) (hfuel : bound ≤ fuel + rank top + 1)
    (h : Below kids top k) : k ∈ walk kids fuel top := by
  induction fuel generalizing top with
  | zero =>
    obtain ⟨child, hchild, _⟩ := Relation.TransGen.head'_iff.mp h
    have := hrank _ _ hchild
    omega
  | succ fuel ih =>
    obtain ⟨child, hchild, hrest⟩ := Relation.TransGen.head'_iff.mp h
    have := hrank _ _ hchild
    simp only [walk, List.mem_flatMap, List.mem_append, List.mem_singleton]
    refine ⟨child, hchild, ?_⟩
    rcases Relation.reflTransGen_iff_eq_or_transGen.mp hrest with rfl | hbelow
    · exact .inr rfl
    · exact .inl (ih (by omega) hbelow)

/-- A walk with enough fuel finds exactly the proper descendants. -/
theorem mem_walk_iff {kids : K → List K} {rank : K → Nat} {bound fuel : Nat} {top k : K}
    (hrank : Ranked kids rank bound) (hfuel : bound ≤ fuel) :
    k ∈ walk kids fuel top ↔ Below kids top k :=
  ⟨below_of_mem_walk, mem_walk_of_below hrank (by omega)⟩

theorem Ranked.irrefl {kids : K → List K} {rank : K → Nat} {bound : Nat} {k : K}
    (hrank : Ranked kids rank bound) : ¬Below kids k k := by
  have hlt : ∀ a b, Below kids a b → rank a < rank b := by
    intro a b h
    induction h with
    | single hchild => exact (hrank _ _ hchild).1
    | tail _ hchild ih => exact ih.trans (hrank _ _ hchild).1
  exact fun h => lt_irrefl _ (hlt k k h)

/-! Preorder walks. -/

theorem preorder_stable {kids : K → List K} {rank : K → Nat} {bound fuel : Nat} {top : K}
    (hrank : Ranked kids rank bound) (hfuel : bound ≤ fuel + rank top + 1) :
    preorder kids (fuel + 1) top = preorder kids fuel top := by
  induction fuel generalizing top with
  | zero =>
    have hnone : kids top = [] := by
      apply List.eq_nil_iff_forall_not_mem.mpr
      intro child hchild
      have := hrank _ _ hchild
      omega
    simp [preorder, hnone]
  | succ fuel ih =>
    rw [preorder, preorder]
    apply List.flatMap_congr
    intro child hchild
    have := hrank _ _ (List.mem_reverse.mp hchild)
    rw [ih (by omega)]

theorem preorder_eq {kids : K → List K} {rank : K → Nat} {bound fuel : Nat}
    (hrank : Ranked kids rank bound) (hfuel : bound ≤ fuel + 1) (top : K) :
    preorder kids fuel top =
      (kids top).reverse.flatMap fun child => child :: preorder kids fuel child := by
  rw [← preorder_stable hrank (by omega), preorder]

theorem mem_preorder_iff {kids : K → List K} {rank : K → Nat} {bound fuel : Nat} {top k : K}
    (hrank : Ranked kids rank bound) (hfuel : bound ≤ fuel + 1) :
    k ∈ preorder kids fuel top ↔ Below kids top k := by
  constructor
  · have hwalk : ∀ depth top, k ∈ preorder kids depth top → Below kids top k := by
      intro depth
      induction depth with
      | zero => simp [preorder]
      | succ depth ih =>
        intro top hmem
        simp only [preorder, List.mem_flatMap, List.mem_reverse, List.mem_cons] at hmem
        obtain ⟨child, hchild, rfl | hmem⟩ := hmem
        · exact .single hchild
        · exact .head hchild (ih child hmem)
    exact hwalk fuel top
  · intro hbelow
    induction hbelow using Relation.TransGen.head_induction_on with
    | single hchild =>
      rw [preorder_eq hrank hfuel]
      exact List.mem_flatMap.mpr ⟨k, List.mem_reverse.mpr hchild, List.mem_cons_self⟩
    | head hchild _ ih =>
      rw [preorder_eq hrank hfuel]
      exact List.mem_flatMap.mpr ⟨_, List.mem_reverse.mpr hchild, List.mem_cons_of_mem _ ih⟩

/-- No two parents share a child. -/
def OneParent (kids : K → List K) : Prop :=
  ∀ a b child, child ∈ kids a → child ∈ kids b → a = b

theorem OneParent.total {kids : K → List K} (hone : OneParent kids) {a b k : K}
    (ha : Below kids a k) (hb : Below kids b k) : a = b ∨ Below kids a b ∨ Below kids b a := by
  induction ha with
  | single hchild =>
    rcases Relation.TransGen.tail'_iff.mp hb with ⟨parent, hpath, hlast⟩
    obtain rfl := hone _ _ _ hchild hlast
    rcases Relation.reflTransGen_iff_eq_or_transGen.mp hpath with rfl | hpath
    · exact .inl rfl
    · exact .inr (.inr hpath)
  | tail hpath hchild ih =>
    rcases Relation.TransGen.tail'_iff.mp hb with ⟨parent, hrest, hlast⟩
    obtain rfl := hone _ _ _ hchild hlast
    rcases Relation.reflTransGen_iff_eq_or_transGen.mp hrest with rfl | hrest
    · exact .inr (.inl hpath)
    · exact ih hrest

theorem nodup_preorder {kids : K → List K} {rank : K → Nat} {bound fuel : Nat}
    (hrank : Ranked kids rank bound) (hone : OneParent kids) (hkids : ∀ k, (kids k).Nodup)
    (hfuel : bound ≤ fuel + 1) (top : K) : (preorder kids fuel top).Nodup := by
  -- by induction on the room above the rank of the top
  induction hroom : bound - rank top using Nat.strong_induction_on generalizing top with
  | _ room ih =>
    rw [preorder_eq hrank hfuel, List.nodup_flatMap]
    constructor
    · intro child hchild
      have hranks := hrank _ _ (List.mem_reverse.mp hchild)
      refine List.nodup_cons.mpr ⟨fun hmem => ?_, ih _ (by omega) child rfl⟩
      exact hrank.irrefl ((mem_preorder_iff hrank hfuel).mp hmem)
    · refine (List.nodup_reverse.mpr (hkids top)).pairwise_of_forall_ne ?_
      intro a ha b hb hne k hka hkb
      rw [List.mem_reverse] at ha hb
      -- a sibling above the other would put the common parent above itself
      have hsibling : ∀ {a b}, a ∈ kids top → b ∈ kids top → ¬Below kids a b := by
        intro a b ha hb hbelow
        obtain ⟨parent, hpath, hlast⟩ := Relation.TransGen.tail'_iff.mp hbelow
        obtain rfl := hone _ _ _ hlast hb
        exact hrank.irrefl (Relation.TransGen.head' ha hpath)
      rcases List.mem_cons.mp hka with rfl | hka <;> rcases List.mem_cons.mp hkb with rfl | hkb
      · exact hne rfl
      · exact hsibling hb ha ((mem_preorder_iff hrank hfuel).mp hkb)
      · exact hsibling ha hb ((mem_preorder_iff hrank hfuel).mp hka)
      · rcases hone.total ((mem_preorder_iff hrank hfuel).mp hka)
          ((mem_preorder_iff hrank hfuel).mp hkb) with rfl | hab | hba
        · exact hne rfl
        · exact hsibling ha hb hab
        · exact hsibling hb ha hba

/-- The walk as a loop over a stack whose top is the head: at most `fuel` rounds
of it, and `none` if nodes are left by then. -/
def draining (kids : K → List K) : Nat → List K → List K → Option (List K)
  | 0, _, _ => none
  | _ + 1, [], out => some out
  | fuel + 1, k :: stack, out => draining kids fuel ((kids k).reverse ++ stack) (out ++ [k])

theorem draining_eq {kids : K → List K} {rank : K → Nat} {bound depth : Nat}
    (hrank : Ranked kids rank bound) (hdepth : bound ≤ depth + 1) {fuel : Nat} {stack : List K}
    (hfuel : (stack.flatMap fun k => k :: preorder kids depth k).length < fuel) (out : List K) :
    draining kids fuel stack out =
      some (out ++ stack.flatMap fun k => k :: preorder kids depth k) := by
  induction fuel generalizing stack out with
  | zero => omega
  | succ fuel ih =>
    cases stack with
    | nil => simp [draining]
    | cons k stack =>
      have hsplit : ((kids k).reverse ++ stack).flatMap (fun k => k :: preorder kids depth k) =
          preorder kids depth k ++ stack.flatMap fun k => k :: preorder kids depth k := by
        rw [List.flatMap_append, ← preorder_eq hrank hdepth]
      rw [List.flatMap_cons, List.cons_append, List.length_cons] at hfuel
      rw [draining, ih (by rw [hsplit]; omega), hsplit]
      simp

end Forest
