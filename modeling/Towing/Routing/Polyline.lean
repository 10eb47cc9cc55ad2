import Towing.Arith.Double
import Mathlib.Data.Rat.Floor
import Mathlib.Algebra.Order.Field.Rat
import Mathlib.Tactic.NormNum
import Mathlib.Tactic.Linarith

namespace Towing.Routing

open Towing.Arith

/-- Coordinates in degrees; a `number` of the program is the rational that it denotes. -/
structure Point where
  lat : ℚ
  lng : ℚ
  deriving DecidableEq

/-- A string is its UTF-16 code units. -/
abbrev Encoded := List UInt16

def PRECISION : ℚ := 100000

/-- A point by the whole numbers of its coordinates: the doubles of `lat / PRECISION` and `lng / PRECISION`. -/
def gridPoint (lat lng : ℤ) : Point := ⟨double (lat / PRECISION), double (lng / PRECISION)⟩

/-! ### Decoding -/

/-- The loop of `decodeSignedValue`, on what is left of the line: `<<` takes its count modulo 32. -/
def decodeChunks (shift : ℕ) (result : BitVec 32) : Encoded → Option (BitVec 32 × Encoded)
  | [] => none
  | c :: rest =>
    let byte : ℤ := c.toNat - 63
    let result := result ||| (BitVec.ofInt 32 byte &&& 0x1f#32) <<< (shift % 32)
    if shift + 5 > 35 then none
    else if byte ≥ 0x20 then decodeChunks (shift + 5) result rest
    else some (result, rest)

/-- The low bit is the sign. -/
def unzigzag (result : BitVec 32) : ℤ :=
  if result &&& 1#32 ≠ 0#32 then (~~~(result.sshiftRight 1)).toInt else (result.sshiftRight 1).toInt

def decodeSignedValue (encoded : Encoded) : Option (ℤ × Encoded) :=
  (decodeChunks 0 0#32 encoded).map fun (result, rest) ↦ (unzigzag result, rest)

theorem decodeChunks_length {shift : ℕ} {result value : BitVec 32} {encoded rest : Encoded}
    (h : decodeChunks shift result encoded = some (value, rest)) : rest.length < encoded.length := by
  induction encoded generalizing shift result with
  | nil => exact absurd h (by simp [decodeChunks])
  | cons c encoded ih =>
    simp only [decodeChunks] at h
    split_ifs at h with hshift hmore
    · exact (ih h).trans (Nat.lt_succ_self _)
    · rw [Option.some_inj, Prod.mk.injEq] at h
      rw [← h.2]
      exact Nat.lt_succ_self _

theorem decodeSignedValue_length {encoded rest : Encoded} {value : ℤ}
    (h : decodeSignedValue encoded = some (value, rest)) : rest.length < encoded.length := by
  rw [decodeSignedValue, Option.map_eq_some_iff] at h
  obtain ⟨⟨result, rest'⟩, hchunks, heq⟩ := h
  obtain ⟨-, rfl⟩ := Prod.mk.inj heq
  exact decodeChunks_length hchunks

/-- The loop of `decodePolyline`, from the coordinates reached. -/
def decodeFrom (lat lng : ℤ) (encoded : Encoded) : List Point :=
  if encoded = [] then []
  else
    match _hlat : decodeSignedValue encoded with
    | none => []
    | some (latDelta, afterLat) =>
      match _hlng : decodeSignedValue afterLat with
      | none => []
      | some (lngDelta, rest) =>
        gridPoint (lat + latDelta) (lng + lngDelta) ::
          decodeFrom (lat + latDelta) (lng + lngDelta) rest
termination_by encoded.length
decreasing_by exact (decodeSignedValue_length _hlng).trans (decodeSignedValue_length _hlat)

def decodePolyline (encoded : Encoded) : List Point := decodeFrom 0 0 encoded

/-! ### Encoding -/

/-- `String.fromCharCode`. -/
def fromCharCode (n : ℤ) : UInt16 := UInt16.ofNat (n % 65536).toNat

/-- The loop of `encodeSignedValue`; `v` is a number of the program, and `&` and `>>>` read 32 bits of it. -/
def encodeChunks (v : ℤ) : Encoded :=
  if 0x20 ≤ v then
    fromCharCode ((0x20#32 ||| BitVec.ofInt 32 v &&& 0x1f#32).toInt + 63) ::
      encodeChunks (BitVec.ofInt 32 v >>> 5).toNat
  else [fromCharCode (v + 63)]
termination_by v.toNat
decreasing_by
  have hle : (BitVec.ofInt 32 v).toNat ≤ v.toNat := by
    have hsize : ((2 ^ 32 : ℕ) : ℤ) = 4294967296 := by norm_num
    rw [BitVec.toNat_ofInt, hsize]
    omega
  rw [BitVec.toNat_ushiftRight, Nat.shiftRight_eq_div_pow]
  omega

def zigzag (value : ℤ) : ℤ :=
  if value < 0 then (~~~(BitVec.ofInt 32 value <<< 1)).toInt else (BitVec.ofInt 32 value <<< 1).toInt

def encodeSignedValue (value : ℤ) : Encoded := encodeChunks (zigzag value)

/-- `Math.round(x * PRECISION)`. -/
def scaled (x : ℚ) : ℤ := mathRound (double (x * PRECISION))

/-- The loop of `encodePolyline`. -/
def encodeFrom (previousLat previousLng : ℤ) : List Point → Encoded
  | [] => []
  | point :: points =>
    let lat := scaled point.lat
    let lng := scaled point.lng
    encodeSignedValue (lat - previousLat) ++ encodeSignedValue (lng - previousLng) ++ encodeFrom lat lng points

def encodePolyline (points : List Point) : Encoded := encodeFrom 0 0 points

/-! ### One value there and back -/

theorem toInt_double {value : ℤ} (hlo : -2 ^ 28 ≤ value) (hhi : value < 2 ^ 28) :
    (BitVec.ofInt 32 value <<< 1).toInt = 2 * value := by
  have h : BitVec.ofInt 32 value <<< 1 = BitVec.ofInt 32 (2 * value) := by
    rw [BitVec.shiftLeft_eq_mul_twoPow, Int.mul_comm, BitVec.ofInt_mul]
    rfl
  rw [h]
  exact BitVec.toInt_ofInt_eq_self (by decide) (by omega) (by omega)

theorem toInt_complement (x : BitVec 32) : (~~~x).toInt = -x.toInt - 1 := by
  have hx := x.isLt
  rw [BitVec.toInt_not, BitVec.toInt_eq_toNat_bmod]
  simp only [Int.bmod_def]
  omega

/-- The values that a difference of coordinates can have are taken to the naturals, signs last. -/
theorem zigzag_spec {value : ℤ} (hlo : -2 ^ 28 ≤ value) (hhi : value < 2 ^ 28) :
    zigzag value = if value < 0 then -2 * value - 1 else 2 * value := by
  rw [zigzag, toInt_complement, toInt_double hlo hhi]
  split_ifs <;> omega

theorem unzigzag_ofNat {v : ℕ} (hv : v < 2 ^ 30) :
    unzigzag (BitVec.ofNat 32 v) = if v % 2 = 1 then -((v / 2 : ℕ) : ℤ) - 1 else ((v / 2 : ℕ) : ℤ) := by
  have hbit : BitVec.ofNat 32 v &&& 1#32 ≠ 0#32 ↔ v % 2 = 1 := by
    rw [Ne, ← BitVec.toNat_inj, BitVec.toNat_and, BitVec.toNat_ofNat, BitVec.toNat_ofNat,
      BitVec.toNat_ofNat, Nat.mod_eq_of_lt (show v < 2 ^ 32 by omega)]
    have : v &&& 1 % 2 ^ 32 = v % 2 := Nat.and_two_pow_sub_one_eq_mod v 1
    rw [this]
    omega
  have hhalf : ((BitVec.ofNat 32 v).sshiftRight 1).toInt = (v / 2 : ℕ) := by
    have hint : (BitVec.ofNat 32 v).toInt = v := by
      rw [BitVec.toInt_eq_toNat_of_lt] <;> rw [BitVec.toNat_ofNat, Nat.mod_eq_of_lt (by omega)]
      omega
    rw [BitVec.toInt_sshiftRight, hint, Int.shiftRight_eq_div_pow]
    omega
  rw [unzigzag, toInt_complement, hhalf]
  by_cases h : v % 2 = 1
  · rw [if_pos (hbit.mpr h), if_pos h]
  · rw [if_neg (fun h' ↦ h (hbit.mp h')), if_neg h]

theorem low5 {n : ℕ} (hn : n < 64) : BitVec.ofInt 32 (n : ℤ) &&& 0x1f#32 = BitVec.ofNat 32 (n % 32) := by
  apply BitVec.eq_of_toNat_eq
  rw [BitVec.ofInt_natCast, BitVec.toNat_and, BitVec.toNat_ofNat, BitVec.toNat_ofNat, BitVec.toNat_ofNat,
    Nat.mod_eq_of_lt (show n < 2 ^ 32 by omega), Nat.mod_eq_of_lt (show n % 32 < 2 ^ 32 by omega)]
  exact Nat.and_two_pow_sub_one_eq_mod n 5

theorem or_shifted {acc : BitVec 32} {x shift : ℕ} (hacc : acc.toNat < 2 ^ shift) (hx : x < 32) (hshift : shift ≤ 25) :
    acc ||| BitVec.ofNat 32 x <<< (shift % 32) = BitVec.ofNat 32 (acc.toNat + x * 2 ^ shift) := by
  have hpow : 2 ^ shift ≤ 2 ^ 25 := Nat.pow_le_pow_right (by decide) hshift
  have hmul : x * 2 ^ shift ≤ 31 * 2 ^ 25 := Nat.mul_le_mul (by omega) hpow
  have hlt : x * 2 ^ shift < 2 ^ 32 := by omega
  have hsum : acc.toNat + x * 2 ^ shift < 2 ^ 32 := by omega
  apply BitVec.eq_of_toNat_eq
  rw [BitVec.toNat_or, BitVec.toNat_shiftLeft, BitVec.toNat_ofNat, BitVec.toNat_ofNat,
    Nat.mod_eq_of_lt (show shift < 32 by omega), Nat.mod_eq_of_lt (show x < 2 ^ 32 by omega), Nat.shiftLeft_eq,
    Nat.mod_eq_of_lt hlt, Nat.mod_eq_of_lt hsum, Nat.or_comm, Nat.mul_comm, ← Nat.two_pow_add_eq_or_of_lt hacc,
    Nat.add_comm]

theorem encodeChunks_last {v : ℕ} (hv : v < 32) : encodeChunks v = [UInt16.ofNat (v + 63)] := by
  rw [encodeChunks, if_neg (by omega), fromCharCode]
  congr 2
  omega

theorem encodeChunks_more {v : ℕ} (hv : 32 ≤ v) (hlt : v < 2 ^ 32) :
    encodeChunks v = UInt16.ofNat (32 + v % 32 + 63) :: encodeChunks (v / 32 : ℕ) := by
  have hlow : (BitVec.ofInt 32 (v : ℤ) &&& 0x1f#32).toNat = v % 32 := by
    rw [BitVec.ofInt_natCast, BitVec.toNat_and, BitVec.toNat_ofNat, BitVec.toNat_ofNat, Nat.mod_eq_of_lt hlt]
    exact Nat.and_two_pow_sub_one_eq_mod v 5
  have hor : (0x20#32 ||| BitVec.ofInt 32 (v : ℤ) &&& 0x1f#32).toNat = 32 + v % 32 := by
    rw [BitVec.toNat_or, hlow]
    exact (Nat.two_pow_add_eq_or_of_lt (i := 5) (Nat.mod_lt v (by decide)) 1).symm
  have hint : (0x20#32 ||| BitVec.ofInt 32 (v : ℤ) &&& 0x1f#32).toInt = (32 + v % 32 : ℕ) := by
    rw [BitVec.toInt_eq_toNat_of_lt, hor]
    rw [hor]
    omega
  have hshift : (BitVec.ofInt 32 (v : ℤ) >>> 5).toNat = v / 32 := by
    rw [BitVec.toNat_ushiftRight, BitVec.ofInt_natCast, BitVec.toNat_ofNat, Nat.mod_eq_of_lt hlt,
      Nat.shiftRight_eq_div_pow]
  rw [encodeChunks, if_pos (by omega), hint, hshift, fromCharCode]
  congr 2
  omega

theorem decodeChunks_last {v shift : ℕ} {acc : BitVec 32} {rest : Encoded} (hv : v < 32) (hacc : acc.toNat < 2 ^ shift)
    (hshift : shift ≤ 25) : decodeChunks shift acc (UInt16.ofNat (v + 63) :: rest) =
      some (BitVec.ofNat 32 (acc.toNat + v * 2 ^ shift), rest) := by
  have hbyte : ((UInt16.ofNat (v + 63)).toNat : ℤ) - 63 = (v : ℕ) := by
    rw [UInt16.toNat_ofNat']
    omega
  simp only [decodeChunks, hbyte]
  rw [low5 (by omega), Nat.mod_eq_of_lt hv, or_shifted hacc hv hshift, if_neg (by omega), if_neg (by omega)]

theorem decodeChunks_more {x shift : ℕ} {acc : BitVec 32} {rest : Encoded} (hx : x < 32)
    (hacc : acc.toNat < 2 ^ shift) (hshift : shift ≤ 25) :
    decodeChunks shift acc (UInt16.ofNat (32 + x + 63) :: rest) =
      decodeChunks (shift + 5) (BitVec.ofNat 32 (acc.toNat + x * 2 ^ shift)) rest := by
  have hbyte : ((UInt16.ofNat (32 + x + 63)).toNat : ℤ) - 63 = (32 + x : ℕ) := by
    rw [UInt16.toNat_ofNat']
    omega
  simp only [decodeChunks, hbyte]
  rw [low5 (by omega), show (32 + x) % 32 = x by omega, or_shifted hacc hx hshift, if_neg (by omega),
    if_pos (by omega)]

/-- The chunks of `v` are read back above what was read before. -/
theorem decodeChunks_encodeChunks (k : ℕ) : ∀ (v shift : ℕ) (acc : BitVec 32) (rest : Encoded),
    v < 32 ^ (k + 1) → acc.toNat < 2 ^ shift → shift + 5 * k ≤ 25 →
    decodeChunks shift acc (encodeChunks v ++ rest) =
      some (BitVec.ofNat 32 (acc.toNat + v * 2 ^ shift), rest) := by
  induction k with
  | zero =>
    intro v shift acc rest hv hacc hshift
    rw [encodeChunks_last (by simpa using hv), List.singleton_append]
    exact decodeChunks_last (by simpa using hv) hacc (by omega)
  | succ k ih =>
    intro v shift acc rest hv hacc hshift
    by_cases hsmall : v < 32
    · rw [encodeChunks_last hsmall, List.singleton_append]
      exact decodeChunks_last hsmall hacc (by omega)
    · have hdiv : v / 32 < 32 ^ (k + 1) := by
        rw [Nat.div_lt_iff_lt_mul (by decide), ← Nat.pow_succ]
        exact hv
      have hlt : v < 2 ^ 32 := by
        have hk : 32 ^ (k + 1 + 1) ≤ 32 ^ 6 := Nat.pow_le_pow_right (by decide) (by omega)
        omega
      have hsplit : v % 32 + v / 32 * 32 = v := by omega
      have hpow : 2 ^ (shift + 5) = 32 * 2 ^ shift := by rw [Nat.pow_add, Nat.mul_comm]
      have hmod : v % 32 * 2 ^ shift ≤ 31 * 2 ^ shift := Nat.mul_le_mul_right _ (by omega)
      have hfit : acc.toNat + v % 32 * 2 ^ shift < 2 ^ 32 := by
        have : 2 ^ (shift + 5) ≤ 2 ^ 30 := Nat.pow_le_pow_right (by decide) (by omega)
        omega
      rw [encodeChunks_more (by omega) hlt, List.cons_append, decodeChunks_more (Nat.mod_lt v (by decide)) hacc (by omega),
        ih (v / 32) (shift + 5) _ rest hdiv ?_ (by omega)]
      · rw [BitVec.toNat_ofNat, Nat.mod_eq_of_lt hfit, hpow]
        congr 3
        calc acc.toNat + v % 32 * 2 ^ shift + v / 32 * (32 * 2 ^ shift)
            = acc.toNat + (v % 32 + v / 32 * 32) * 2 ^ shift := by ring
          _ = acc.toNat + v * 2 ^ shift := by rw [hsplit]
      · rw [BitVec.toNat_ofNat, Nat.mod_eq_of_lt hfit, hpow]
        omega

theorem decodeSignedValue_encodeSignedValue {value : ℤ} (hlo : -2 ^ 28 ≤ value) (hhi : value < 2 ^ 28)
    (rest : Encoded) : decodeSignedValue (encodeSignedValue value ++ rest) = some (value, rest) := by
  obtain ⟨v, hv⟩ : ∃ v : ℕ, zigzag value = v := by
    refine ⟨(zigzag value).toNat, ?_⟩
    rw [zigzag_spec hlo hhi]
    split_ifs <;> omega
  have hspec := zigzag_spec hlo hhi
  rw [hv] at hspec
  have hlt : v < 2 ^ 30 := by
    split_ifs at hspec <;> omega
  have hread := decodeChunks_encodeChunks 5 v 0 0#32 rest (by omega) (by decide) (by omega)
  rw [encodeSignedValue, hv, decodeSignedValue, hread]
  simp only [BitVec.toNat_ofNat, Nat.zero_mod, Nat.zero_add, Nat.pow_zero, Nat.mul_one, Option.map_some,
    unzigzag_ofNat hlt]
  congr 2
  split_ifs at hspec ⊢ <;> omega

/-! ### Lines -/

/-- What `geoPointSchema` accepts. -/
def InRange (p : Point) : Prop := -90 ≤ p.lat ∧ p.lat ≤ 90 ∧ -180 ≤ p.lng ∧ p.lng ≤ 180

abbrev GeoPoint := {p : Point // InRange p}

/-- The point of the 1e-5 degree grid that a point is encoded as. -/
def Point.rounded (p : Point) : Point := gridPoint (scaled p.lat) (scaled p.lng)

/-- The point is one of the grid. -/
def Point.OnGrid (p : Point) : Prop := ∃ latE5 lngE5 : ℤ, p = gridPoint latE5 lngE5

/-- The grid has nothing nearer, but for the last place of the scaled coordinate. -/
def Nearest (x : ℚ) (n : ℤ) : Prop := |(n : ℚ) - x * PRECISION| ≤ 1 / 2 + 1 / 2 ^ 28

theorem abs_scaled_le {x bound : ℚ} (hx : |x| ≤ bound) : |x * PRECISION| ≤ bound * PRECISION := by
  rw [abs_mul, abs_of_pos (show 0 < PRECISION by norm_num [PRECISION])]
  exact mul_le_mul_of_nonneg_right hx (by norm_num [PRECISION])

theorem scaled_nearest {x : ℚ} (hx : |x| ≤ 180) : Nearest x (scaled x) := by
  have hsize := abs_scaled_le hx
  have hproduct := abs_double_sub_le_abs (x * PRECISION)
  have hround := abs_mathRound_sub_le (double (x * PRECISION))
  have hlimit : 180 * PRECISION = 18000000 := by norm_num [PRECISION]
  rw [hlimit] at hsize
  calc |(scaled x : ℚ) - x * PRECISION|
      ≤ |(scaled x : ℚ) - double (x * PRECISION)| + |double (x * PRECISION) - x * PRECISION| := abs_sub_le _ _ _
    _ ≤ 1 / 2 + 1 / 2 ^ 28 := add_le_add hround (by linarith)

/-- The two roundings of a coordinate of the grid do not reach the next one. -/
theorem scaled_gridPoint {x : ℚ} {n : ℤ} (h : x = double (n / PRECISION)) (hx : |x| ≤ 180) : scaled x = n := by
  have hp : (0 : ℚ) < PRECISION := by norm_num [PRECISION]
  have hquotient := abs_double_sub_le_abs ((n : ℚ) / PRECISION)
  rw [← h] at hquotient
  have hsize : |(n : ℚ) / PRECISION| ≤ 360 := by
    have htri := abs_sub_abs_le_abs_sub ((n : ℚ) / PRECISION) x
    rw [abs_sub_comm] at htri
    linarith
  have hx' : |x - n / PRECISION| ≤ 360 / 2 ^ 53 := by linarith
  have hscaled : |x * PRECISION - n| ≤ 360 / 2 ^ 53 * PRECISION := by
    have heq : x * PRECISION - n = (x - n / PRECISION) * PRECISION := by
      rw [sub_mul, div_mul_cancel₀ _ hp.ne']
    rw [heq]
    exact abs_scaled_le hx'
  have hproduct := abs_double_sub_le_abs (x * PRECISION)
  have hbound := abs_scaled_le hx
  refine mathRound_eq ?_
  calc |double (x * PRECISION) - n|
      ≤ |double (x * PRECISION) - x * PRECISION| + |x * PRECISION - n| := abs_sub_le _ _ _
    _ < 1 / 2 := by
      norm_num [PRECISION] at hscaled hproduct hbound ⊢
      linarith

theorem InRange.abs_lat {p : Point} (h : InRange p) : |p.lat| ≤ 90 := abs_le.mpr ⟨h.1, h.2.1⟩

theorem InRange.abs_lng {p : Point} (h : InRange p) : |p.lng| ≤ 180 := abs_le.mpr h.2.2

theorem Point.OnGrid.rounded {p : Point} (h : p.OnGrid) (hp : InRange p) : p.rounded = p := by
  obtain ⟨latE5, lngE5, rfl⟩ := h
  have hlat : scaled (gridPoint latE5 lngE5).lat = latE5 := scaled_gridPoint rfl (hp.abs_lat.trans (by norm_num))
  have hlng : scaled (gridPoint latE5 lngE5).lng = lngE5 := scaled_gridPoint rfl hp.abs_lng
  rw [Point.rounded, hlat, hlng]

theorem scaled_bounds {x bound : ℚ} {n : ℤ} (hlimit : bound * PRECISION = n) (hsmall : |n| ≤ 2 ^ 53)
    (hx : |x| ≤ bound) : -n ≤ scaled x ∧ scaled x ≤ n := by
  obtain ⟨hlow, hhigh⟩ := abs_le.mp (abs_scaled_le hx)
  rw [hlimit] at hlow hhigh
  constructor
  · have h := mathRound_mono (double_mono hlow)
    rwa [← Int.cast_neg, double_intCast (by rwa [abs_neg]), mathRound_intCast] at h
  · have h := mathRound_mono (double_mono hhigh)
    rwa [double_intCast hsmall, mathRound_intCast] at h

theorem decodeFrom_nil (lat lng : ℤ) : decodeFrom lat lng [] = [] := by
  rw [decodeFrom, if_pos rfl]

theorem decodeFrom_cons {lat lng latDelta lngDelta : ℤ} {encoded afterLat rest : Encoded}
    (hlat : decodeSignedValue encoded = some (latDelta, afterLat))
    (hlng : decodeSignedValue afterLat = some (lngDelta, rest)) :
    decodeFrom lat lng encoded = gridPoint (lat + latDelta) (lng + lngDelta) ::
      decodeFrom (lat + latDelta) (lng + lngDelta) rest := by
  have hne : encoded ≠ [] := by
    rintro rfl
    exact absurd hlat (by simp [decodeSignedValue, decodeChunks])
  rw [decodeFrom, if_neg hne]
  split
  · rename_i h
    rw [hlat] at h
    exact absurd h (by simp)
  · rename_i latDelta' afterLat' h
    rw [hlat, Option.some_inj, Prod.mk.injEq] at h
    obtain ⟨rfl, rfl⟩ := h
    split
    · rename_i h
      rw [hlng] at h
      exact absurd h (by simp)
    · rename_i lngDelta' rest' h
      rw [hlng, Option.some_inj, Prod.mk.injEq] at h
      obtain ⟨rfl, rfl⟩ := h
      rfl

theorem decodeFrom_stop {lat lng : ℤ} {encoded : Encoded}
    (h : ∀ latDelta afterLat, decodeSignedValue encoded = some (latDelta, afterLat) →
      decodeSignedValue afterLat = none) : decodeFrom lat lng encoded = [] := by
  rw [decodeFrom]
  split_ifs with hnil
  · rfl
  · split
    · rfl
    · rename_i hlat
      split
      · rfl
      · rename_i hlng
        rw [h _ _ hlat] at hlng
        exact absurd hlng (by simp)

/-- The coordinates reached so far are those of a point that was in range. -/
def Reached (lat lng : ℤ) : Prop := -9000000 ≤ lat ∧ lat ≤ 9000000 ∧ -18000000 ≤ lng ∧ lng ≤ 18000000

theorem InRange.reached {p : Point} (h : InRange p) : Reached (scaled p.lat) (scaled p.lng) := by
  have hlat := scaled_bounds (n := 9000000) (by norm_num [PRECISION]) (by norm_num) h.abs_lat
  have hlng := scaled_bounds (n := 18000000) (by norm_num [PRECISION]) (by norm_num) h.abs_lng
  exact ⟨hlat.1, hlat.2, hlng.1, hlng.2⟩

/-- No error is carried from one point to the next: each is decoded as the grid point it was rounded to. -/
theorem decodeFrom_encodeFrom {points : List Point} (hpoints : ∀ p ∈ points, InRange p) : ∀ lat lng : ℤ,
    Reached lat lng → decodeFrom lat lng (encodeFrom lat lng points) = points.map Point.rounded := by
  induction points with
  | nil =>
    intro lat lng _
    exact decodeFrom_nil lat lng
  | cons p points ih =>
    intro lat lng hreached
    have hp := (hpoints p List.mem_cons_self).reached
    obtain ⟨h1, h2, h3, h4⟩ := hreached
    obtain ⟨h1', h2', h3', h4'⟩ := id hp
    have hgo := ih (fun q hq ↦ hpoints q (List.mem_cons_of_mem p hq)) _ _ hp
    simp only [encodeFrom, List.append_assoc]
    rw [decodeFrom_cons (decodeSignedValue_encodeSignedValue (by omega) (by omega) _)
      (decodeSignedValue_encodeSignedValue (by omega) (by omega) _), add_sub_cancel, add_sub_cancel, hgo]
    rfl

theorem decode_encode {points : List Point} (hpoints : ∀ p ∈ points, InRange p) :
    decodePolyline (encodePolyline points) = points.map Point.rounded :=
  decodeFrom_encodeFrom hpoints 0 0 ⟨by decide, by decide, by decide, by decide⟩

/-- The product of this coordinate is a half exactly, though the coordinate is below it. -/
example : scaled (double (12345675 / 1000000)) = 1234568 := by decide +kernel

/-! ### Truncated lines -/

/-- What was read of a part of the line is read of the whole line as well. -/
theorem decodeChunks_append {shift : ℕ} {result value : BitVec 32} {encoded rest : Encoded} (more : Encoded)
    (h : decodeChunks shift result encoded = some (value, rest)) :
    decodeChunks shift result (encoded ++ more) = some (value, rest ++ more) := by
  induction encoded generalizing shift result with
  | nil => exact absurd h (by simp [decodeChunks])
  | cons c encoded ih =>
    simp only [List.cons_append, decodeChunks] at h ⊢
    split_ifs at h ⊢ with hshift hmore
    · exact ih h
    · rw [Option.some_inj, Prod.mk.injEq] at h ⊢
      exact ⟨h.1, congrArg (· ++ more) h.2⟩

theorem decodeSignedValue_append {value : ℤ} {encoded rest : Encoded} (more : Encoded)
    (h : decodeSignedValue encoded = some (value, rest)) :
    decodeSignedValue (encoded ++ more) = some (value, rest ++ more) := by
  rw [decodeSignedValue, Option.map_eq_some_iff] at h
  obtain ⟨⟨result, rest'⟩, hchunks, heq⟩ := h
  obtain ⟨rfl, rfl⟩ := Prod.mk.inj heq
  rw [decodeSignedValue, decodeChunks_append more hchunks]
  rfl

/-- Whatever the line is, a part of it decodes to a part of its points. -/
theorem decodeFrom_prefix (more : Encoded) (n : ℕ) : ∀ (encoded : Encoded) (lat lng : ℤ), encoded.length ≤ n →
    decodeFrom lat lng encoded <+: decodeFrom lat lng (encoded ++ more) := by
  induction n with
  | zero =>
    intro encoded lat lng hlen
    rw [List.eq_nil_of_length_eq_zero (Nat.le_zero.mp hlen), decodeFrom_nil]
    exact List.nil_prefix
  | succ n ih =>
    intro encoded lat lng hlen
    cases hlat : decodeSignedValue encoded with
    | none =>
      rw [decodeFrom_stop fun latDelta afterLat h ↦ absurd (hlat.symm.trans h) (by simp)]
      exact List.nil_prefix
    | some first =>
      obtain ⟨latDelta, afterLat⟩ := first
      cases hlng : decodeSignedValue afterLat with
      | none =>
        rw [decodeFrom_stop fun latDelta' afterLat' h ↦ ?_]
        · exact List.nil_prefix
        · rw [hlat, Option.some_inj, Prod.mk.injEq] at h
          rw [← h.2]
          exact hlng
      | some second =>
        obtain ⟨lngDelta, rest⟩ := second
        have hshort := decodeSignedValue_length hlat
        have hshorter := decodeSignedValue_length hlng
        rw [decodeFrom_cons hlat hlng,
          decodeFrom_cons (decodeSignedValue_append more hlat) (decodeSignedValue_append more hlng),
          List.prefix_cons_inj]
        exact ih rest _ _ (by omega)

theorem decode_take (encoded : Encoded) (n : ℕ) : decodePolyline (encoded.take n) <+: decodePolyline encoded := by
  have h := decodeFrom_prefix (encoded.drop n) _ (encoded.take n) 0 0 le_rfl
  rwa [List.take_append_drop] at h

end Towing.Routing
