import Towing.Arith.Apportion
import Towing.Money.SettlementIdentities
import Mathlib.Data.Rat.Floor

namespace Towing.Money

open Towing.Arith Towing.Db

/-- The remainders with their places, largest first, ties by the lower index. -/
def byRemainder (remainders : List ℤ) : List (ℤ × ℕ) :=
  remainders.zipIdx.mergeSort fun a b ↦ b.1 < a.1 || (a.1 = b.1 && a.2 ≤ b.2)

/-- The loop that hands out what is unallocated, from round `i` on. -/
def handOut (order : List (ℤ × ℕ)) : ℕ → ℕ → List ℤ → List ℤ
  | _, 0, legs => legs
  | i, unallocated + 1, legs =>
    handOut order (i + 1) unallocated (legs.modify ((order[i % order.length]?.map (·.2)).getD 0) (· + 1))

/-- The sum of the weights, or the first one that is refused. -/
def sumWeights : List ℤ → Except String ℤ
  | [] => .ok 0
  | w :: weights =>
    if w < 0 then .error ("splitPoolN weights must be non-negative and finite, got " ++ toString w)
    else (sumWeights weights).map (w + ·)

/-- The floors and the remainders, where no product overflows. -/
def floors (totalPaise weightSum : ℤ) : List ℤ → Except String (List (ℤ × ℤ))
  | [] => .ok []
  | w :: weights =>
    let numerator := totalPaise * w
    if !(JsNumber.int numerator).isSafeInteger then .error "splitPoolN overflowed safe-integer range"
    else
      let floor := numerator / weightSum
      (floors totalPaise weightSum weights).map ((floor, numerator - floor * weightSum) :: ·)

/-- N-way largest-remainder allocation. -/
def splitPoolN (totalPaise : ℤ) (weights : List ℤ) : Except String (List ℤ) :=
  if weights.isEmpty then .error "splitPoolN needs at least one weight"
  else if !(JsNumber.int totalPaise).isSafeInteger then
    .error ("splitPoolN needs integer paise, got " ++ toString totalPaise)
  else
    match sumWeights weights with
    | .error e => .error e
    | .ok weightSum =>
      if weightSum ≤ 0 then .error "splitPoolN weights must sum to a positive number"
      else
        match floors totalPaise weightSum weights with
        | .error e => .error e
        | .ok parts =>
          let legs := parts.map (·.1)
          .ok (handOut (byRemainder (parts.map (·.2))) 0 (totalPaise - legs.sum).toNat legs)

/-- No product of the split leaves the safe integers. -/
def Exact (totalPaise : ℤ) (weights : List ℤ) : Prop :=
  (JsNumber.int totalPaise).isSafeInteger = true ∧ ∀ w ∈ weights, (JsNumber.int (totalPaise * w)).isSafeInteger = true

/-- The legs share out the total, each as near to its quota as whole paise allow. -/
structure QuotaSplit (totalPaise : ℤ) (weights legs : List ℤ) : Prop where
  length : legs.length = weights.length
  sum : legs.sum = totalPaise
  quota : ∀ (i : ℕ) (w leg : ℤ), weights[i]? = some w → legs[i]? = some leg →
    leg = ⌊(totalPaise * w / weights.sum : ℚ)⌋ ∨ leg = ⌈(totalPaise * w / weights.sum : ℚ)⌉
  zero : ∀ (i : ℕ) (leg : ℤ), weights[i]? = some 0 → legs[i]? = some leg → leg = 0
  monotone : 0 ≤ totalPaise → ∀ (i j : ℕ) (v w leg leg' : ℤ), weights[i]? = some v → weights[j]? = some w → v < w →
    legs[i]? = some leg → legs[j]? = some leg' → leg ≤ leg'

variable {totalPaise : ℤ} {weights : List ℤ}

theorem sumWeights_ok (h : ∀ w ∈ weights, 0 ≤ w) : sumWeights weights = .ok weights.sum := by
  induction weights with
  | nil => rfl
  | cons w weights ih =>
    have hw := h w List.mem_cons_self
    rw [sumWeights, if_neg (by omega), ih fun v hv ↦ h v (List.mem_cons_of_mem _ hv), List.sum_cons]
    rfl

theorem floors_ok {weightSum : ℤ} (h : ∀ w ∈ weights, (JsNumber.int (totalPaise * w)).isSafeInteger = true) :
    floors totalPaise weightSum weights =
      .ok (weights.map fun w ↦ (totalPaise * w / weightSum, totalPaise * w % weightSum)) := by
  induction weights with
  | nil => rfl
  | cons w weights ih =>
    have hrest := ih fun v hv ↦ h v (List.mem_cons_of_mem _ hv)
    simp only [floors, h w List.mem_cons_self, Bool.not_true, Bool.false_eq_true, if_false, hrest]
    rw [mul_comm (totalPaise * w / weightSum), ← Int.emod_def]
    rfl

/-- The loop goes through the order from where it stands. -/
theorem handOut_eq {order : List (ℤ × ℕ)} {i n : ℕ} (legs : List ℤ) (h : i + n ≤ order.length) :
    handOut order i n legs = addOnes (((order.drop i).take n).map (·.2)) legs := by
  induction n generalizing i legs with
  | zero => rfl
  | succ n ih =>
    have hi : i < order.length := by omega
    have hget : order[i]? = some order[i] := List.getElem?_eq_getElem hi
    rw [handOut, ih _ (by omega), Nat.mod_eq_of_lt hi, hget, List.drop_eq_getElem_cons hi, List.take_succ_cons,
      List.map_cons, addOnes_cons]
    rfl

theorem byRemainder_perm (remainders : List ℤ) : (byRemainder remainders).Perm remainders.zipIdx :=
  List.mergeSort_perm _ _

theorem byRemainder_sorted (remainders : List ℤ) : (byRemainder remainders).Pairwise fun a b ↦ b.1 ≤ a.1 := by
  refine (List.pairwise_mergeSort (fun a b c hab hbc ↦ ?_) (fun a b ↦ ?_) _).imp fun {a b} hab ↦ ?_
  · simp only [Bool.or_eq_true, Bool.and_eq_true, decide_eq_true_eq] at hab hbc ⊢
    omega
  · simp only [Bool.or_eq_true, Bool.and_eq_true, decide_eq_true_eq]
    omega
  · simp only [Bool.or_eq_true, Bool.and_eq_true, decide_eq_true_eq] at hab
    omega

section Split

variable (totalPaise weights)

/-- What the floors leave to be handed out. -/
def unallocated : ℤ := totalPaise - (weights.map fun w ↦ totalPaise * w / weights.sum).sum

/-- The places that get a paisa more. -/
def raised : List ℕ :=
  ((byRemainder (weights.map fun w ↦ totalPaise * w % weights.sum)).take (unallocated totalPaise weights).toNat).map (·.2)

variable {totalPaise weights} (hsum : 0 < weights.sum)

theorem sum_remainders (d : ℤ) (ws : List ℤ) : (ws.map fun w ↦ totalPaise * w % d).sum =
    totalPaise * ws.sum - (ws.map fun w ↦ totalPaise * w / d).sum * d := by
  induction ws with
  | nil => simp
  | cons w ws ih =>
    rw [List.map_cons, List.sum_cons, List.map_cons, List.sum_cons, List.sum_cons, ih, Int.emod_def]
    ring

theorem mem_byRemainder {r : ℤ} {i : ℕ} : (r, i) ∈ byRemainder (weights.map fun w ↦ totalPaise * w % weights.sum) ↔
    ∃ w, weights[i]? = some w ∧ totalPaise * w % weights.sum = r := by
  rw [(byRemainder_perm _).mem_iff, List.mem_zipIdx_iff_getElem?, List.getElem?_map, Option.map_eq_some_iff]

variable (totalPaise)

include hsum

theorem unallocated_bounds : 0 ≤ unallocated totalPaise weights ∧ unallocated totalPaise weights ≤
    (weights.map fun w ↦ totalPaise * w % weights.sum).countP (· ≠ 0) := by
  refine shortfall_le_countP hsum (fun r hr ↦ ?_) ?_
  · obtain ⟨w, -, rfl⟩ := List.mem_map.mp hr
    exact ⟨Int.emod_nonneg _ (by omega), Int.emod_lt_of_pos _ hsum⟩
  · rw [sum_remainders, unallocated]
    ring

theorem byRemainder_countP : unallocated totalPaise weights ≤
    (byRemainder (weights.map fun w ↦ totalPaise * w % weights.sum)).countP fun x ↦ x.1 ≠ 0 := by
  have hcount := (unallocated_bounds totalPaise hsum).2
  have hfst (rs : List ℤ) : rs.zipIdx.countP (fun x ↦ x.1 ≠ 0) = rs.countP (· ≠ 0) := by
    conv_rhs => rw [← List.zipIdx_map_fst 0 rs]
    rw [List.countP_map]
    rfl
  rwa [(byRemainder_perm _).countP_eq, hfst]

theorem unallocated_le : unallocated totalPaise weights ≤
    (byRemainder (weights.map fun w ↦ totalPaise * w % weights.sum)).length :=
  (byRemainder_countP totalPaise hsum).trans (Int.ofNat_le.mpr List.countP_le_length)

theorem length_raised : (raised totalPaise weights).length = unallocated totalPaise weights := by
  have hle := unallocated_le totalPaise hsum
  have hnonneg := (unallocated_bounds totalPaise hsum).1
  rw [raised, List.length_map, List.length_take, Nat.min_eq_left (by omega)]
  omega

omit hsum in
theorem nodup_raised : (raised totalPaise weights).Nodup := by
  have hnodup : ((byRemainder (weights.map fun w ↦ totalPaise * w % weights.sum)).map (·.2)).Nodup := by
    rw [((byRemainder_perm _).map (·.2)).nodup_iff, List.zipIdx_map_snd]
    exact List.nodup_range'
  exact List.Nodup.sublist ((List.take_sublist _ _).map _) hnodup

variable {totalPaise}

omit hsum in
theorem mem_raised {i : ℕ} (hi : i ∈ raised totalPaise weights) : ∃ w, weights[i]? = some w ∧
    (totalPaise * w % weights.sum, i) ∈
      (byRemainder (weights.map fun w ↦ totalPaise * w % weights.sum)).take (unallocated totalPaise weights).toNat := by
  obtain ⟨⟨r, j⟩, hmem, rfl⟩ := List.mem_map.mp hi
  obtain ⟨w, hw, rfl⟩ := mem_byRemainder.mp (List.mem_of_mem_take hmem)
  exact ⟨w, hw, hmem⟩

/-- Only a place with a remainder is raised. -/
theorem raised_ne_zero {i : ℕ} {w : ℤ} (hi : i ∈ raised totalPaise weights) (hw : weights[i]? = some w) :
    totalPaise * w % weights.sum ≠ 0 := by
  obtain ⟨w', hw', hmem⟩ := mem_raised hi
  obtain rfl := Option.some.inj (hw.symm.trans hw')
  have hcount := byRemainder_countP totalPaise hsum
  refine taken_ne_zero (fun x : ℤ × ℕ ↦ x.1) (byRemainder_sorted _) (fun x hx ↦ ?_) (by omega) hmem
  obtain ⟨v, -, hv⟩ := mem_byRemainder.mp hx
  exact hv ▸ Int.emod_nonneg _ (by omega)

omit hsum in
/-- A place with a larger remainder than one that is raised is raised too. -/
theorem raised_of_larger {i j : ℕ} {v w : ℤ} (hi : i ∈ raised totalPaise weights) (hv : weights[i]? = some v)
    (hw : weights[j]? = some w) (hlt : totalPaise * v % weights.sum < totalPaise * w % weights.sum) :
    j ∈ raised totalPaise weights := by
  obtain ⟨v', hv', hmem⟩ := mem_raised hi
  obtain rfl := Option.some.inj (hv.symm.trans hv')
  have htaken := taken_of_larger (fun x : ℤ × ℕ ↦ x.1) (byRemainder_sorted _) hmem
    (mem_byRemainder.mpr ⟨w, hw, rfl⟩) hlt
  exact List.mem_map.mpr ⟨_, htaken, rfl⟩

/-- A leg is the floor of its quota, and a paisa more where it is raised. -/
def legOf (totalPaise : ℤ) (weights : List ℤ) (i : ℕ) (w : ℤ) : ℤ :=
  totalPaise * w / weights.sum + if i ∈ raised totalPaise weights then 1 else 0

/-- What the split comes to. -/
theorem splitPoolN_ok (hnonneg : ∀ w ∈ weights, 0 ≤ w) (hexact : Exact totalPaise weights) :
    ∃ legs, splitPoolN totalPaise weights = .ok legs ∧ legs.length = weights.length ∧ legs.sum = totalPaise ∧
      ∀ (i : ℕ) (w leg : ℤ), weights[i]? = some w → legs[i]? = some leg → leg = legOf totalPaise weights i w := by
  have hne : weights.isEmpty = false := by
    cases weights with
    | nil => simp at hsum
    | cons w weights => rfl
  have hlength := length_raised totalPaise hsum
  have hbounds := unallocated_bounds totalPaise hsum
  refine ⟨addOnes (raised totalPaise weights) (weights.map fun w ↦ totalPaise * w / weights.sum), ?_, ?_, ?_, ?_⟩
  · have hle : 0 + (unallocated totalPaise weights).toNat ≤
        (byRemainder (weights.map fun w ↦ totalPaise * w % weights.sum)).length := by
      have hle := unallocated_le totalPaise hsum
      omega
    have hhand := handOut_eq (weights.map fun w ↦ totalPaise * w / weights.sum) hle
    simp only [splitPoolN, hne, hexact.1, sumWeights_ok hnonneg, floors_ok hexact.2, Bool.not_true, Bool.false_eq_true,
      if_false, List.map_map, Function.comp_def, if_neg (not_le.mpr hsum)]
    exact congrArg Except.ok hhand
  · rw [length_addOnes, List.length_map]
  · rw [sum_addOnes, hlength, unallocated]
    · omega
    · intro i hi
      obtain ⟨w, hw, -⟩ := mem_raised hi
      rw [List.length_map]
      exact (List.getElem?_eq_some_iff.mp hw).1
  · intro i w leg hw hleg
    rw [getElem?_addOnes, List.getElem?_map, hw, Option.map_some, Option.map_some] at hleg
    obtain rfl := Option.some.inj hleg
    rw [legOf, (nodup_raised totalPaise).count]
    split_ifs <;> rfl

theorem legOf_zero (i : ℕ) (hi : weights[i]? = some 0) : legOf totalPaise weights i 0 = 0 := by
  have hnot : i ∉ raised totalPaise weights := fun h ↦ raised_ne_zero hsum h hi (by simp)
  simp [legOf, hnot]

theorem legOf_quota (i : ℕ) {w : ℤ} (hw : weights[i]? = some w) :
    legOf totalPaise weights i w = ⌊(totalPaise * w / weights.sum : ℚ)⌋ ∨
      legOf totalPaise weights i w = ⌈(totalPaise * w / weights.sum : ℚ)⌉ := by
  obtain ⟨n, hn⟩ := Int.eq_ofNat_of_zero_le (le_of_lt hsum)
  have hfloor : ⌊(totalPaise * w / weights.sum : ℚ)⌋ = totalPaise * w / weights.sum := by
    rw [hn]
    exact_mod_cast Rat.floor_intCast_div_natCast (totalPaise * w) n
  have hceil : ⌈(totalPaise * w / weights.sum : ℚ)⌉ = -(-(totalPaise * w) / weights.sum) := by
    rw [hn]
    exact_mod_cast Rat.ceil_intCast_div_natCast (totalPaise * w) n
  rw [hfloor, hceil, legOf]
  split_ifs with hraised
  · have hne := raised_ne_zero hsum hraised hw
    right
    have hup : -(totalPaise * w) / weights.sum = -(totalPaise * w / weights.sum) - 1 := by
      have hdiv := Int.emod_def (totalPaise * w) weights.sum
      have hlt := Int.emod_lt_of_pos (totalPaise * w) hsum
      have hge := Int.emod_nonneg (totalPaise * w) (by omega : weights.sum ≠ 0)
      have hunique : -(totalPaise * w) / weights.sum = -(totalPaise * w / weights.sum) - 1 ∧
          -(totalPaise * w) % weights.sum = weights.sum - totalPaise * w % weights.sum := by
        refine (Int.ediv_emod_unique hsum).mpr ⟨?_, by omega, by omega⟩
        rw [hdiv]
        ring
      exact hunique.1
    omega
  · left
    omega

theorem legOf_monotone (htotal : 0 ≤ totalPaise) {i j : ℕ} {v w : ℤ}
    (hv : weights[i]? = some v) (hw : weights[j]? = some w) (hlt : v < w) :
    legOf totalPaise weights i v ≤ legOf totalPaise weights j w := by
  have hle : totalPaise * v / weights.sum ≤ totalPaise * w / weights.sum :=
    Int.ediv_le_ediv hsum (mul_le_mul_of_nonneg_left (le_of_lt hlt) htotal)
  rcases lt_or_eq_of_le hle with hfloor | hfloor
  · unfold legOf
    split_ifs <;> omega
  · by_cases hi : i ∈ raised totalPaise weights
    · have hne := raised_ne_zero hsum hi hv
      have hpos : 0 < totalPaise := by
        refine lt_of_le_of_ne htotal fun hzero ↦ hne ?_
        rw [← hzero, zero_mul, Int.zero_emod]
      have hrem : totalPaise * v % weights.sum < totalPaise * w % weights.sum := by
        have hmul := mul_lt_mul_of_pos_left hlt hpos
        rw [Int.emod_def, Int.emod_def, hfloor]
        omega
      rw [legOf, legOf, if_pos hi, if_pos (raised_of_larger hi hv hw hrem), hfloor]
    · unfold legOf
      rw [if_neg hi, hfloor]
      split_ifs <;> omega

end Split

theorem quotaSplit (hnonneg : ∀ w ∈ weights, 0 ≤ w) (hsum : 0 < weights.sum) (hexact : Exact totalPaise weights) :
    ∃ legs, splitPoolN totalPaise weights = .ok legs ∧ QuotaSplit totalPaise weights legs := by
  obtain ⟨legs, hok, hlength, htotal, hlegs⟩ := splitPoolN_ok hsum hnonneg hexact
  refine ⟨legs, hok, hlength, htotal, fun i w leg hw hleg ↦ ?_, fun i leg hw hleg ↦ ?_,
    fun hpos i j v w leg leg' hv hw hlt hleg hleg' ↦ ?_⟩
  · rw [hlegs i w leg hw hleg]
    exact legOf_quota hsum i hw
  · rw [hlegs i 0 leg hw hleg]
    exact legOf_zero hsum i hw
  · rw [hlegs i v leg hv hleg, hlegs j w leg' hw hleg']
    exact legOf_monotone hsum hpos hv hw hlt

/-- For the driver's whole percentage and the fleet's, the two ways to split are within a
paisa of each other. -/
def NearSplitPool (poolPaise p : ℤ) (legs : List ℤ) : Prop :=
  ∃ driver fleet, legs = [driver, fleet] ∧ |driver - (splitPool poolPaise (100 * p)).driverPaise| ≤ 1 ∧
    |fleet - (splitPool poolPaise (100 * p)).fleetPaise| ≤ 1

/-- A whole percentage is a double, and so is what is left of the hundred. -/
theorem splitPool_whole {pool p : ℤ} (h0 : 0 ≤ p) (h1 : p ≤ 100) (hexact : |pool * (100 - p)| < 2 ^ 53) :
    (splitPool pool (100 * p)).fleetPaise = roundDiv (pool * (100 - p)) 100 := by
  have hnumber : Pct.number (100 * p) = p := by
    rw [Pct.number]
    push_cast
    rw [mul_div_cancel_left₀ _ (by norm_num)]
    exact double_intCast (by rw [abs_of_nonneg h0]; omega)
  have hrest : double (100 - (p : ℚ)) = ((100 - p : ℤ) : ℚ) := by
    rw [show (100 : ℚ) - p = ((100 - p : ℤ) : ℚ) by push_cast; ring]
    exact double_intCast (by rw [abs_of_nonneg (by omega)]; omega)
  rw [splitPool, hnumber, hrest]
  exact percentOf_intCast hexact

theorem splitPool_near {pool p leg : ℤ} (h0 : 0 ≤ p) (h1 : p ≤ 100) (hexact : |pool * (100 - p)| < 2 ^ 53)
    (h : leg = pool * (100 - p) / 100 ∨ leg = pool * (100 - p) / 100 + 1) :
    |leg - (splitPool pool (100 * p)).fleetPaise| ≤ 1 := by
  rw [splitPool_whole h0 h1 hexact, roundDiv, abs_le]
  omega

/-- The split is largest-remainder and respects the quotas; for two percentages it is that
of `splitPool` to the paisa. -/
theorem splitPoolN_quota (totalPaise : ℤ) (weights : List ℤ) (hnonneg : ∀ w ∈ weights, 0 ≤ w)
    (hsum : 0 < weights.sum) (hexact : Exact totalPaise weights) :
    ∃ legs, splitPoolN totalPaise weights = .ok legs ∧ QuotaSplit totalPaise weights legs ∧
      ∀ p, weights = [p, 100 - p] → 0 ≤ totalPaise → NearSplitPool totalPaise p legs := by
  obtain ⟨legs, hok, hlength, htotal, hlegs⟩ := splitPoolN_ok hsum hnonneg hexact
  obtain ⟨legs', hok', hquota⟩ := quotaSplit hnonneg hsum hexact
  obtain rfl : legs = legs' := Except.ok.inj (hok.symm.trans hok')
  refine ⟨legs, hok, hquota, fun p hweights _ ↦ ?_⟩
  subst hweights
  obtain ⟨driver, fleet, rfl⟩ := List.length_eq_two.mp hlength
  have hfleet := hlegs 1 (100 - p) fleet rfl rfl
  have hpair : driver + fleet = totalPaise := by simpa using htotal
  have hsplit : (splitPool totalPaise (100 * p)).driverPaise + (splitPool totalPaise (100 * p)).fleetPaise = totalPaise :=
    splitPool_sum
  have hnear : |fleet - (splitPool totalPaise (100 * p)).fleetPaise| ≤ 1 := by
    have hp := hnonneg p (by simp)
    have hrest := hnonneg (100 - p) (by simp)
    have hsafe := hexact.2 (100 - p) (by simp)
    rw [JsNumber.isSafeInteger, decide_eq_true_eq] at hsafe
    refine splitPool_near hp (by omega) (by omega) ?_
    have hhundred : ([p, 100 - p] : List ℤ).sum = 100 := by simp
    rw [hfleet, legOf, hhundred]
    split_ifs <;> omega
  refine ⟨driver, fleet, rfl, ?_, hnear⟩
  rw [abs_le] at hnear ⊢
  omega

theorem splitPoolN_quota_sample : ∃ legs, splitPoolN (-7) [1, 0, 3, 1] = .ok legs ∧ QuotaSplit (-7) [1, 0, 3, 1] legs ∧
    ∀ p, [1, 0, 3, 1] = [p, 100 - p] → (0 : ℤ) ≤ -7 → NearSplitPool (-7) p legs :=
  splitPoolN_quota (-7) [1, 0, 3, 1] (by decide) (by decide) (by unfold Exact; decide)

end Towing.Money
